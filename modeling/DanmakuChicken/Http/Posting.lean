import DanmakuChicken.Http.Server
import DanmakuChicken.SimpleWeb.Sequence

namespace DanmakuChicken.Http

open Overlay SimpleWeb

section

variable {readJson : List UInt8 → Except String (Json String)} {gdi : Gdi} {bits : ℕ}
  {connections : List ℕ} {posts : ℕ → Post bits} {m : DanmakuManager}
  {actions : List ((ℕ × Connection.Action) ⊕ Op)} {u : Server DanmakuManager Op}

end

def twoCalls : List ((ℕ × Connection.Action) ⊕ Op) :=
  [.inl (7, .read (.arrive post.text)), .inl (7, .read (.receive 86)), .inl (7, .read .complete),
    .inl (7, .sent), .inr .updateDanmaku, .inl (4, .read (.arrive post.text)),
    .inl (4, .read (.receive 86)), .inl (4, .read .complete)]

end DanmakuChicken.Http
