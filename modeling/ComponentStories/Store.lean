import ComponentStories.FileSystem.Access

/-
# Stores

A store holds texts at paths.  Generating story templates needs no more of it than to ask whether
something is at a path and to write there.
-/

namespace ComponentStories

/-- What a state has to offer for texts to be written to it. -/
class Store (σ : Type) where
  /-- Whether something is at a path. -/
  holds : σ → String → Bool
  /-- Writes a text at a path, in the place of what was there. -/
  write : σ → String → String → Except IoError Unit × σ

instance : Store FileSystem where
  holds := FileSystem.holds
  write fs path text := fs.write path (.text text)

/-- Does something for each item in turn, every time in the state that the item before it left. -/
def inTurn {σ α β : Type} (act : α → σ → β × σ) : List α → σ → List β × σ
  | [], s => ([], s)
  | a :: rest, s =>
    let (b, s) := act a s
    let (bs, s) := inTurn act rest s
    (b :: bs, s)

theorem length_inTurn {σ α β : Type} (act : α → σ → β × σ) (l : List α) (s : σ) :
    (inTurn act l s).1.length = l.length := by
  induction l generalizing s with
  | nil => rfl
  | cons a rest ih => simp [inTurn, ih]

/-- Acting on two lists in turn is acting on their concatenation. -/
theorem inTurn_append {σ α β : Type} (act : α → σ → β × σ) (l r : List α) (s : σ) :
    inTurn act (l ++ r) s =
      ((inTurn act l s).1 ++ (inTurn act r (inTurn act l s).2).1,
        (inTurn act r (inTurn act l s).2).2) := by
  induction l generalizing s with
  | nil => rfl
  | cons a rest ih => simp [inTurn, ih]

end ComponentStories
