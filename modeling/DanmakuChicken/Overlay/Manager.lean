import DanmakuChicken.Overlay.AddDanmaku
import DanmakuChicken.Overlay.UpdateDanmaku

namespace DanmakuChicken.Overlay

/-- The fields of `DanmakuManager` that adding and updating read, with their initial values. -/
structure DanmakuManager where
  danmakuSet : List Danmaku := []
  danmakuBoxSize : Size := ⟨800, 600⟩
  danmakuSize : ℕ := 40
  danmakuSpeed : ℤ := 4
  deriving DecidableEq

abbrev Gdi := CString → ℕ → Drawing

inductive Slider
  | danmakuSize | danmakuSpeed
  deriving DecidableEq

namespace DanmakuManager

def placed (m : DanmakuManager) (content : CString) (drawn : Drawing) : Danmaku :=
  findRow m.danmakuBoxSize m.danmakuSet ((Danmaku.construct content drawn).enter m.danmakuBoxSize)

def addDrawn (m : DanmakuManager) (content : CString) (drawn : Drawing) : DanmakuManager :=
  { m with danmakuSet := pushBack m.danmakuSet (m.placed content drawn) }

def addDanmaku (gdi : Gdi) (m : DanmakuManager) (content : CString) : DanmakuManager :=
  m.addDrawn content (gdi content m.danmakuSize)

def updateDanmaku (m : DanmakuManager) : DanmakuManager :=
  { m with danmakuSet := Overlay.updateDanmaku m.danmakuSpeed m.danmakuSet }

def onHScroll (m : DanmakuManager) (slider : Slider) (nPos : ℕ) : DanmakuManager :=
  match slider with
  | .danmakuSize => { m with danmakuSize := nPos }
  | .danmakuSpeed => { m with danmakuSpeed := nPos }

@[simp] theorem addDrawn_set (m : DanmakuManager) (content : CString) (drawn : Drawing) :
    (m.addDrawn content drawn).danmakuSet = m.danmakuSet ++ [m.placed content drawn] := rfl

@[simp] theorem addDrawn_box (m : DanmakuManager) (content : CString) (drawn : Drawing) :
    (m.addDrawn content drawn).danmakuBoxSize = m.danmakuBoxSize := rfl

@[simp] theorem addDrawn_speed (m : DanmakuManager) (content : CString) (drawn : Drawing) :
    (m.addDrawn content drawn).danmakuSpeed = m.danmakuSpeed := rfl

@[simp] theorem updateDanmaku_set (m : DanmakuManager) :
    m.updateDanmaku.danmakuSet = ticked m.danmakuSpeed m.danmakuSet := updateDanmaku_eq _ _

@[simp] theorem updateDanmaku_box (m : DanmakuManager) :
    m.updateDanmaku.danmakuBoxSize = m.danmakuBoxSize := rfl

@[simp] theorem updateDanmaku_speed (m : DanmakuManager) :
    m.updateDanmaku.danmakuSpeed = m.danmakuSpeed := rfl

@[simp] theorem onHScroll_set (m : DanmakuManager) (slider : Slider) (nPos : ℕ) :
    (m.onHScroll slider nPos).danmakuSet = m.danmakuSet := by cases slider <;> rfl

@[simp] theorem onHScroll_box (m : DanmakuManager) (slider : Slider) (nPos : ℕ) :
    (m.onHScroll slider nPos).danmakuBoxSize = m.danmakuBoxSize := by cases slider <;> rfl

theorem placed_eq (m : DanmakuManager) (content : CString) (drawn : Drawing) :
    m.placed content drawn =
      { Danmaku.construct content drawn with
        pos := ⟨m.danmakuBoxSize.width, (m.placed content drawn).pos.y⟩ } :=
  findRow_eq_setY _ _ _

theorem placed_x (m : DanmakuManager) (content : CString) (drawn : Drawing) :
    (m.placed content drawn).pos.x = m.danmakuBoxSize.width := by rw [placed_eq]

theorem placed_size (m : DanmakuManager) (content : CString) (drawn : Drawing) :
    (m.placed content drawn).size = ⟨drawn.width, drawn.height⟩ := by
  rw [placed_eq]
  rfl

end DanmakuManager

/-- The operations of the manager, each run to its end before the next. -/
inductive Op
  | addDanmaku (content : CString) (drawn : Drawing)
  | updateDanmaku
  | onHScroll (slider : Slider) (nPos : ℕ)
  deriving DecidableEq

namespace DanmakuManager

def apply (m : DanmakuManager) : Op → DanmakuManager
  | .addDanmaku content drawn => m.addDrawn content drawn
  | .updateDanmaku => m.updateDanmaku
  | .onHScroll slider nPos => m.onHScroll slider nPos

def run (m : DanmakuManager) (ops : List Op) : DanmakuManager := ops.foldl apply m

@[simp] theorem run_nil (m : DanmakuManager) : m.run [] = m := rfl

@[simp] theorem run_cons (m : DanmakuManager) (op : Op) (ops : List Op) :
    m.run (op :: ops) = (m.apply op).run ops := rfl

@[simp] theorem apply_box (m : DanmakuManager) (op : Op) :
    (m.apply op).danmakuBoxSize = m.danmakuBoxSize := by cases op <;> simp [apply]

@[simp] theorem run_box (m : DanmakuManager) (ops : List Op) :
    (m.run ops).danmakuBoxSize = m.danmakuBoxSize := by
  induction ops generalizing m with
  | nil => rfl
  | cons op ops ih => rw [run_cons, ih, apply_box]

end DanmakuManager

end DanmakuChicken.Overlay
