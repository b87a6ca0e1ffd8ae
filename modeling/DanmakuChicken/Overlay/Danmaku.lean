import DanmakuChicken.Lib.Rect
import Mathlib.Algebra.Order.Ring.Int
import Mathlib.Tactic

/-! A danmaku and the two ways a `std::vector` of them moves its elements.

Coordinates are exact integers: a C++ `int` that overflows has no value to model. -/

namespace DanmakuChicken.Overlay

abbrev CString := List UInt16

structure Point where
  x : ℤ
  y : ℤ
  deriving DecidableEq, Inhabited

structure Size where
  width : ℤ
  height : ℤ
  deriving DecidableEq, Inhabited

/-- A `CImage` by its `m_hBitmap`; `none` while no bitmap is attached. -/
structure CImage where
  hBitmap : Option ℕ
  deriving DecidableEq, Inhabited

namespace CImage

def destroy (_ : CImage) : CImage := ⟨none⟩

def detach (img : CImage) : Option ℕ × CImage := (img.hBitmap, ⟨none⟩)

def attach (_ : CImage) (hBitmap : Option ℕ) : CImage := ⟨hBitmap⟩

end CImage

structure Danmaku where
  content : CString
  pos : Point
  size : Size
  img : CImage
  deriving DecidableEq, Inhabited

/-- What the constructor gets from GDI+ for a content: the bounds of its path, which are
never negative, and the bitmap the path is painted on. -/
structure Drawing where
  width : ℕ
  height : ℕ
  img : CImage
  deriving DecidableEq

namespace Danmaku

def construct (content : CString) (drawn : Drawing) : Danmaku where
  content := content
  pos := ⟨0, 0⟩
  size := ⟨drawn.width, drawn.height⟩
  img := drawn.img

def right (d : Danmaku) : ℤ := d.pos.x + d.size.width

def bottom (d : Danmaku) : ℤ := d.pos.y + d.size.height

def setX (d : Danmaku) (x : ℤ) : Danmaku := { d with pos := { d.pos with x := x } }

def setY (d : Danmaku) (y : ℤ) : Danmaku := { d with pos := { d.pos with y := y } }

@[simp] theorem setX_x (d : Danmaku) (x : ℤ) : (d.setX x).pos.x = x := rfl
@[simp] theorem setX_y (d : Danmaku) (x : ℤ) : (d.setX x).pos.y = d.pos.y := rfl
@[simp] theorem setX_size (d : Danmaku) (x : ℤ) : (d.setX x).size = d.size := rfl
@[simp] theorem setX_bottom (d : Danmaku) (x : ℤ) : (d.setX x).bottom = d.bottom := rfl
@[simp] theorem setX_right (d : Danmaku) (x : ℤ) : (d.setX x).right = x + d.size.width := rfl
@[simp] theorem setX_setX (d : Danmaku) (x x' : ℤ) : (d.setX x).setX x' = d.setX x' := rfl
@[simp] theorem setX_self (d : Danmaku) : d.setX d.pos.x = d := rfl
@[simp] theorem setY_x (d : Danmaku) (y : ℤ) : (d.setY y).pos.x = d.pos.x := rfl
@[simp] theorem setY_y (d : Danmaku) (y : ℤ) : (d.setY y).pos.y = y := rfl
@[simp] theorem setY_size (d : Danmaku) (y : ℤ) : (d.setY y).size = d.size := rfl
@[simp] theorem setY_bottom (d : Danmaku) (y : ℤ) : (d.setY y).bottom = y + d.size.height := rfl
@[simp] theorem setY_right (d : Danmaku) (y : ℤ) : (d.setY y).right = d.right := rfl

def rect (d : Danmaku) : Rect ℤ := ⟨d.pos.x, d.pos.y, d.size.width, d.size.height⟩

/-- `Danmaku::operator=(Danmaku&&)`: the assigned object and what is left of the other. -/
def moveAssign (this other : Danmaku) : Danmaku × Danmaku :=
  let content := other.content
  let pos := other.pos
  let size := other.size
  let destroyed := this.img.destroy
  let (hBitmap, emptied) := other.img.detach
  ({ content, pos, size, img := destroyed.attach hBitmap },
    { other with content := [], img := emptied })

@[simp] theorem moveAssign_fst (this other : Danmaku) : (this.moveAssign other).1 = other := rfl

def moveConstruct (other : Danmaku) : Danmaku := ((default : Danmaku).moveAssign other).1

@[simp] theorem moveConstruct_eq (d : Danmaku) : d.moveConstruct = d := rfl

end Danmaku

def pushBack (set : List Danmaku) (danmaku : Danmaku) : List Danmaku :=
  set ++ [danmaku.moveConstruct]

@[simp] theorem pushBack_eq (set : List Danmaku) (d : Danmaku) : pushBack set d = set ++ [d] := rfl

/-- Move-assigns each element of `rest` one place down, into `hole` first; what the last
assignment left behind is dropped. -/
def shiftDown (hole : Danmaku) : List Danmaku → List Danmaku
  | [] => []
  | next :: rest => (hole.moveAssign next).1 :: shiftDown (hole.moveAssign next).2 rest

@[simp] theorem shiftDown_eq (hole : Danmaku) (rest : List Danmaku) : shiftDown hole rest = rest := by
  induction rest generalizing hole with
  | nil => rfl
  | cons next rest ih => simp [shiftDown, ih]

def erase (set : List Danmaku) (it : ℕ) : List Danmaku :=
  match set.drop it with
  | [] => set
  | hole :: rest => set.take it ++ shiftDown hole rest

theorem erase_eq_eraseIdx (set : List Danmaku) (it : ℕ) : erase set it = set.eraseIdx it := by
  induction set generalizing it with
  | nil => cases it <;> rfl
  | cons d set ih =>
    cases it with
    | zero => simp [erase]
    | succ it =>
      rw [List.eraseIdx_cons_succ, ← ih]
      simp only [erase, List.drop_succ_cons, List.take_succ_cons]
      cases set.drop it <;> rfl

end DanmakuChicken.Overlay
