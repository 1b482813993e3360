import OsTasks.Lib.Loop

/-!
# Linked lists

A store of list nodes, each with a value and the address of the next node. The address of a node
is its place in the store, so that a new node gets the address that is free next, and `none` is
the null pointer. A node may be without a value: then its pointer to the value leads nowhere.

`Segment nodes p values q` says that the nodes from `p` to `q` have these values, and a list is a
segment that ends with the null pointer. The values of a list are determined by its first node
(`Segment.suffix`).

`chained` are the nodes of a list that is built from its first node on, with one more node
allocated than there are values (`chained_link`). Such a list has no end before its last node is
cut off (`chained_cut`).

`walkTurn` is the loop over the nodes of a list, and `loop_walk` computes it.
-/

set_option autoImplicit false

namespace OsTasks.Lib

universe u

variable {α β γ φ : Type u}

/-- A node: what it points to, and the index of the next one. -/
structure Node (α : Type u) where
  value : Option α
  next : Option Nat

/-- The nodes from one pointer to another have these values. -/
inductive Segment (nodes : List (Node α)) : Option Nat → List α → Option Nat → Prop where
  | nil (p : Option Nat) : Segment nodes p [] p
  | cons {a : Nat} {value : α} {next q : Option Nat} {values : List α} :
      nodes[a]? = some ⟨some value, next⟩ → Segment nodes next values q →
        Segment nodes (some a) (value :: values) q

namespace Segment

variable {nodes : List (Node α)} {p q r : Option Nat} {values others : List α}

theorem append (first : Segment nodes p values q) (second : Segment nodes q others r) :
    Segment nodes p (values ++ others) r := by
  induction first with
  | nil => exact second
  | cons node _ ih => exact .cons node (ih second)

/-- A list that starts with a segment goes on behind it. -/
theorem suffix (segment : Segment nodes p values q) (list : Segment nodes p others none) :
    ∃ rest, others = values ++ rest ∧ Segment nodes q rest none := by
  induction segment generalizing others with
  | nil => exact ⟨others, rfl, list⟩
  | @cons a value next q values node _ ih =>
      cases list with
      | cons node' list' =>
          cases node.symm.trans node'
          obtain ⟨rest, rfl, ended⟩ := ih list'
          exact ⟨rest, rfl, ended⟩

theorem unique (list : Segment nodes p values none) (list' : Segment nodes p others none) :
    values = others := by
  obtain ⟨rest, whole, ended⟩ := list.suffix list'
  cases ended with
  | nil => rw [whole, List.append_nil]

end Segment

/-! ## Building a list -/

/-- The nodes of a list, from the address `a` on. Each of them is followed by the next one. -/
def chained : List α → Nat → List (Node α)
  | [], _ => []
  | value :: values, a => ⟨some value, some (a + 1)⟩ :: chained values (a + 1)

@[simp]
theorem length_chained (values : List α) (a : Nat) :
    (chained values a).length = values.length := by
  induction values generalizing a with
  | nil => rfl
  | cons value values ih => simp only [chained, List.length_cons, ih]

theorem chained_append (values others : List α) (a : Nat) :
    chained (values ++ others) a = chained values a ++ chained others (a + values.length) := by
  induction values generalizing a with
  | nil => rfl
  | cons value values ih =>
      rw [List.cons_append, chained, chained, List.cons_append, ih, List.length_cons,
        Nat.add_right_comm, Nat.add_assoc a]

theorem segment_chained (before : List (Node α)) (values : List α) (after : List (Node α)) :
    Segment (before ++ (chained values before.length ++ after)) (some before.length) values
      (some (before.length + values.length)) := by
  induction values generalizing before with
  | nil => exact .nil _
  | cons value values ih =>
      have later := ih (before ++ [⟨some value, some (before.length + 1)⟩])
      simp only [List.length_append, List.length_singleton, List.append_assoc,
        List.singleton_append] at later
      have node : (before ++ (chained (value :: values) before.length ++ after))[before.length]? =
          some ⟨some value, some (before.length + 1)⟩ := by
        rw [List.getElem?_append_right (Nat.le_refl _), Nat.sub_self]
        rfl
      rw [List.length_cons, ← Nat.add_assoc, Nat.add_right_comm]
      exact .cons node later

/-- Fill the last node of a list and allocate the next one. -/
theorem chained_link (values : List α) (value : α) (unused fresh : Node α) :
    (chained values 0 ++ [unused]).set values.length ⟨some value, some (values.length + 1)⟩ ++
      [fresh] = chained (values ++ [value]) 0 ++ [fresh] := by
  rw [List.set_append_right _ _ (Nat.le_of_eq (length_chained values 0)), length_chained,
    Nat.sub_self, chained_append, Nat.zero_add]
  rfl

theorem modify_append_cons {before after : List β} (b : β) (f : β → β) :
    (before ++ b :: after).modify before.length f = before ++ f b :: after := by
  induction before with
  | nil => rfl
  | cons first before ih => exact congrArg (first :: ·) ih

/-- Cut off what follows the last value. -/
theorem chained_cut {values : List α} (nonempty : values ≠ []) (after : List (Node α)) :
    Segment ((chained values 0 ++ after).modify (values.length - 1)
      fun node => { node with next := none }) (some 0) values none := by
  obtain ⟨before, last, rfl⟩ : ∃ before last, values = before ++ [last] :=
    ⟨_, _, (List.dropLast_concat_getLast nonempty).symm⟩
  have cut : (chained (before ++ [last]) 0 ++ after).modify ((before ++ [last]).length - 1)
      (fun node => { node with next := none }) =
        chained before 0 ++ ⟨some last, none⟩ :: after := by
    have place : (before ++ [last]).length - 1 = (chained before 0).length := by simp
    rw [place, chained_append, List.append_assoc]
    exact modify_append_cons _ _
  have node : (chained before 0 ++ ⟨some last, none⟩ :: after)[before.length]? =
      some ⟨some last, none⟩ := by
    rw [List.getElem?_append_right (Nat.le_of_eq (length_chained before 0)), length_chained,
      Nat.sub_self]
    rfl
  have first := segment_chained [] before (⟨some last, none⟩ :: after)
  simp only [List.nil_append, List.length_nil, Nat.zero_add] at first
  rw [cut]
  exact first.append (.cons node (.nil none))

/-! ## Walking along a list -/

/-- `while (it != NULL) { …; it = it->next; }`. A visit goes on with an accumulator or leaves the
loop. -/
def walkTurn (nodes : List (Node α)) (wild : φ) (visit : β → α → β ⊕ γ) (done : β → γ) :
    Option Nat × β → Except φ ((Option Nat × β) ⊕ γ)
  | (none, acc) => .ok (.inr (done acc))
  | (some a, acc) =>
      match nodes[a]? with
      | some ⟨some value, next⟩ =>
          match visit acc value with
          | .inl acc => .ok (.inl (next, acc))
          | .inr result => .ok (.inr result)
      | _ => .error wild

/-- The same over the values of the list. -/
def walkList (visit : β → α → β ⊕ γ) (done : β → γ) : β → List α → γ
  | acc, [] => done acc
  | acc, value :: values =>
      match visit acc value with
      | .inl acc => walkList visit done acc values
      | .inr result => result

theorem loop_walk {nodes : List (Node α)} (wild : φ) (visit : β → α → β ⊕ γ) (done : β → γ)
    {p : Option Nat} {values : List α} (list : Segment nodes p values none) (acc : β)
    {fuel : Nat} (enough : values.length < fuel) :
    loop (walkTurn nodes wild visit done) fuel (p, acc) =
      some (.ok (walkList visit done acc values)) := by
  induction values generalizing p acc fuel with
  | nil =>
      cases list
      obtain ⟨fuel, rfl⟩ : ∃ n, fuel = n + 1 := ⟨fuel - 1, by omega⟩
      exact loop_done rfl
  | cons value values ih =>
      cases list with
      | @cons a _ next _ _ node list' =>
          rw [List.length_cons] at enough
          obtain ⟨fuel, rfl⟩ : ∃ n, fuel = n + 1 := ⟨fuel - 1, by omega⟩
          rw [walkList]
          cases visited : visit acc value with
          | inl acc' =>
              have turn : walkTurn nodes wild visit done (some a, acc) =
                  .ok (.inl (next, acc')) := by
                rw [walkTurn, node]
                simp only [visited]
              rw [loop_again turn]
              exact ih list' acc' (by omega)
          | inr result =>
              have turn : walkTurn nodes wild visit done (some a, acc) = .ok (.inr result) := by
                rw [walkTurn, node]
                simp only [visited]
              exact loop_done turn

end OsTasks.Lib
