import RetainedScene.Fault

/-!
# Models

A model is a finite sequence that generated components are made from, read by its count and by
index.
-/

set_option autoImplicit false

namespace RetainedScene

structure Model (δ : Type) where
  count : Nat
  element : Fin count → δ
  /-- What reading at an index past the end is answered with. -/
  beyond : Nat → Fault

namespace Model

variable {δ : Type}

def ofList (elements : List δ) : Model δ :=
  ⟨elements.length, elements.get, fun _ => .indexOutOfRange⟩

/-- Elements without content: what is made from them learns its index only. -/
def ofCount (count : Nat) : Model Unit :=
  ⟨count, fun _ => (), fun index => .beyondCount index count⟩

def get (m : Model δ) (index : Nat) : Except Fault δ :=
  if h : index < m.count then .ok (m.element ⟨index, h⟩) else .error (m.beyond index)

def isEmpty (m : Model δ) : Bool :=
  m.count == 0

def toList (m : Model δ) : List δ :=
  List.ofFn m.element

theorem toList_ofList (elements : List δ) : (ofList elements).toList = elements := by
  exact List.ext_getElem (by simp [toList, ofList]) (by simp [toList, ofList])

theorem length_toList (m : Model δ) : m.toList.length = m.count := by
  simp [toList]

end Model

end RetainedScene
