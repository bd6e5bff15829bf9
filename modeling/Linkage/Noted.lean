/-
Purpose: Values that come with the notes made while they were computed.
-/

namespace Linkage

/-- A value together with the notes that were made on the way to it, oldest first. -/
structure Noted (ν : Type) (α : Type) where
  value : α
  notes : List ν := []

namespace Noted

variable {ν α β : Type}

/-- Continue with the value; the notes of both steps are kept in order. -/
@[inline] protected def bind (x : Noted ν α) (f : α → Noted ν β) : Noted ν β :=
  let y := f x.value
  ⟨y.value, x.notes ++ y.notes⟩

instance : Monad (Noted ν) where
  pure a := ⟨a, []⟩
  bind := Noted.bind

@[simp] theorem value_pure (a : α) : (pure a : Noted ν α).value = a := rfl

@[simp] theorem notes_pure (a : α) : (pure a : Noted ν α).notes = [] := rfl

@[simp] theorem value_bind (x : Noted ν α) (f : α → Noted ν β) :
    (x >>= f).value = (f x.value).value := rfl

@[simp] theorem notes_bind (x : Noted ν α) (f : α → Noted ν β) :
    (x >>= f).notes = x.notes ++ (f x.value).notes := rfl

protected theorem id_map (x : Noted ν α) : id <$> x = x := by
  show (⟨x.value, x.notes ++ []⟩ : Noted ν α) = x
  rw [List.append_nil]

protected theorem bind_assoc {γ : Type} (x : Noted ν α) (f : α → Noted ν β)
    (g : β → Noted ν γ) : x >>= f >>= g = x >>= fun a => f a >>= g := by
  show (⟨_, (x.notes ++ (f x.value).notes) ++ _⟩ : Noted ν γ) = ⟨_, x.notes ++ (_ ++ _)⟩
  rw [List.append_assoc]
  rfl

instance : LawfulMonad (Noted ν) :=
  LawfulMonad.mk' (Noted ν) Noted.id_map (fun _ _ => rfl) Noted.bind_assoc

def note (n : ν) : Noted ν Unit := ⟨(), [n]⟩

/-- Make several notes, in order. -/
def noteAll (ns : List ν) : Noted ν Unit := ⟨(), ns⟩

/-- Apply a function to every element in turn; the notes follow the order of the list. -/
def traverse (f : α → Noted ν β) : List α → Noted ν (List β)
  | [] => ⟨[], []⟩
  | a :: rest =>
    let b := f a
    let bs := traverse f rest
    ⟨b.value :: bs.value, b.notes ++ bs.notes⟩

end Noted

end Linkage
