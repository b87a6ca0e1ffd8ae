import DanmakuChicken.Overlay.History
import DanmakuChicken.Overlay.NoOverlap
import DanmakuChicken.Overlay.OnScreen
import DanmakuChicken.Overlay.Serial
import DanmakuChicken.Overlay.TopRow
import DanmakuChicken.Overlay.Interference
import DanmakuChicken.Overlay.Coordinates
import DanmakuChicken.Overlay.Attached
import DanmakuChicken.Overlay.Ownership
import DanmakuChicken.Overlay.Lifetime
import DanmakuChicken.FromUrl.Main
import DanmakuChicken.BLive.RoundTrip
import DanmakuChicken.BLive.Receive
import DanmakuChicken.BLive.Heartbeat
import DanmakuChicken.BLive.Malformed
import DanmakuChicken.BLive.OwnBody
import DanmakuChicken.BLive.Client
import DanmakuChicken.Http.HandleAddDanmaku
import DanmakuChicken.Http.Content
import DanmakuChicken.CoolQ.RoundTrip
import DanmakuChicken.CoolQ.Server
import DanmakuChicken.CoolQ.Log
import DanmakuChicken.SimpleWeb.ScopeRunner
import DanmakuChicken.SimpleWeb.QueryString
import DanmakuChicken.SimpleWeb.Attributes
import DanmakuChicken.SimpleWeb.Robustness
import DanmakuChicken.SimpleWeb.Connections
import DanmakuChicken.SimpleWeb.Pool
import DanmakuChicken.Http.Posting
import DanmakuChicken.Http.Threads
import DanmakuChicken.Dialog.Shutdown
