import Mathlib.Algebra.BigOperators.Fin
import Mathlib.Algebra.Order.BigOperators.Group.Finset
import Mathlib.Data.List.Perm.Basic

/-!
# Families of queues without repetition

A family of queues is an assignment of a list to every index. Its operations are the
two of an intrusive list: a node is added at the tail of a queue, and a node is deleted
from the queue it is in. `Distinct` is the invariant of the representation: a node is in
at most one queue, and there at most once. Both operations keep it, the first one for a
node that is in no queue.

A node moves when it is deleted and added elsewhere. `sweep_eq_swept` computes the walk
over one queue that moves the nodes with a given property to the tail of another: the
nodes that stay keep their order, and the nodes that move arrive in theirs.

Nodes of one queue keep their order (`<+`) while other nodes come and go (`sublist_addTail`,
`sublist_del`, `sublist_move`).
-/

set_option autoImplicit false

namespace OsTasks.Lib.Queues

universe u v

variable {ι : Type u} {α : Type v}

/-- A node is in some queue. -/
def Linked (queues : ι → List α) (a : α) : Prop := ∃ i, a ∈ queues i

/-- A node is in at most one queue, and there at most once. -/
structure Distinct (queues : ι → List α) : Prop where
  nodup : ∀ i, (queues i).Nodup
  unique : ∀ {i j a}, a ∈ queues i → a ∈ queues j → i = j

/-- The number of nodes in all queues. -/
def total [Fintype ι] (queues : ι → List α) : Nat := ∑ i, (queues i).length

variable [DecidableEq ι] [DecidableEq α]

/-- Add a node at the tail of a queue. -/
def addTail (queues : ι → List α) (i : ι) (a : α) : ι → List α :=
  Function.update queues i (queues i ++ [a])

/-- Delete a node from the queue it is in. -/
def del (queues : ι → List α) (a : α) : ι → List α := fun i => (queues i).erase a

/-- Delete a node and add it at the tail of a queue. -/
def move (queues : ι → List α) (i : ι) (a : α) : ι → List α := addTail (del queues a) i a

variable {queues : ι → List α} {i j : ι} {a b : α}

/-! ## Members -/

omit [DecidableEq α] in
theorem mem_addTail : b ∈ addTail queues i a j ↔ b ∈ queues j ∨ (j = i ∧ b = a) := by
  rw [addTail]
  by_cases same : j = i
  · subst same
    simp
  · simp [same]

omit [DecidableEq ι] in
theorem Distinct.mem_del (distinct : Distinct queues) :
    b ∈ del queues a i ↔ b ∈ queues i ∧ b ≠ a := by
  rw [del, (distinct.nodup i).mem_erase_iff]
  exact and_comm

omit [DecidableEq α] in
theorem linked_addTail : Linked (addTail queues i a) b ↔ Linked queues b ∨ b = a := by
  simp only [Linked, mem_addTail, exists_or, exists_and_right, exists_eq, true_and]

omit [DecidableEq ι] in
theorem Distinct.linked_del (distinct : Distinct queues) :
    Linked (del queues a) b ↔ Linked queues b ∧ b ≠ a := by
  simp only [Linked, distinct.mem_del, exists_and_right]

/-! ## The invariant -/

omit [DecidableEq ι] [DecidableEq α] in
theorem distinct_empty : Distinct (fun _ : ι => ([] : List α)) where
  nodup _ := List.nodup_nil
  unique member := absurd member List.not_mem_nil

omit [DecidableEq α] in
theorem Distinct.addTail (distinct : Distinct queues) (fresh : ¬ Linked queues a) :
    Distinct (addTail queues i a) where
  nodup j := by
    rw [Queues.addTail]
    by_cases same : j = i
    · subst same
      rw [Function.update_self]
      exact (distinct.nodup j).append (List.nodup_singleton a)
        (List.disjoint_singleton.mpr fun member => fresh ⟨j, member⟩)
    · rw [Function.update_of_ne same]
      exact distinct.nodup j
  unique := by
    intro j l b first second
    rw [mem_addTail] at first second
    rcases first with first | ⟨rfl, rfl⟩
    · rcases second with second | ⟨rfl, rfl⟩
      · exact distinct.unique first second
      · exact absurd ⟨j, first⟩ fresh
    · rcases second with second | ⟨rfl, -⟩
      · exact absurd ⟨l, second⟩ fresh
      · rfl

omit [DecidableEq ι] in
theorem Distinct.del (distinct : Distinct queues) (a : α) : Distinct (del queues a) where
  nodup i := (distinct.nodup i).erase a
  unique first second :=
    distinct.unique (List.mem_of_mem_erase first) (List.mem_of_mem_erase second)

omit [DecidableEq ι] in
theorem Distinct.not_linked_del (distinct : Distinct queues) : ¬ Linked (Queues.del queues a) a := by
  simp [distinct.linked_del]

theorem Distinct.move (distinct : Distinct queues) (i : ι) (a : α) :
    Distinct (move queues i a) :=
  (distinct.del a).addTail distinct.not_linked_del

theorem Distinct.linked_move (distinct : Distinct queues) (linked : Linked queues a) :
    Linked (Queues.move queues i a) b ↔ Linked queues b := by
  rw [Queues.move, linked_addTail, distinct.linked_del]
  constructor
  · rintro (⟨member, -⟩ | rfl)
    · exact member
    · exact linked
  · intro member
    by_cases same : b = a
    · exact .inr same
    · exact .inl ⟨member, same⟩

/-! ## A single queue -/

/-- The family with one queue, all others empty. -/
def only (i : ι) (nodes : List α) : ι → List α := Function.update (fun _ => []) i nodes

section Only

variable {nodes : List α}

omit [DecidableEq α] in
@[simp] theorem only_self : only i nodes i = nodes := Function.update_self ..

omit [DecidableEq α] in
theorem only_of_ne (different : j ≠ i) : only i nodes j = [] := Function.update_of_ne different ..

omit [DecidableEq α] in
theorem mem_only : a ∈ only i nodes j ↔ j = i ∧ a ∈ nodes := by
  by_cases same : j = i
  · simp [same]
  · simp [same, only_of_ne same]

omit [DecidableEq α] in
theorem distinct_only (nodup : nodes.Nodup) : Distinct (only i nodes) where
  nodup j := by
    by_cases same : j = i
    · rw [same, only_self]
      exact nodup
    · rw [only_of_ne same]
      exact List.nodup_nil
  unique first second := (mem_only.mp first).1.trans (mem_only.mp second).1.symm

/-- The head of a single queue goes to its tail. -/
theorem move_only_cons : move (only i (a :: nodes)) i a = only i (nodes ++ [a]) := by
  funext j
  by_cases same : j = i
  · subst same
    simp [move, addTail, del]
  · simp [move, addTail, del, same, only_of_ne same]

end Only

/-! ## Order -/

section Order

open scoped List

variable {nodes : List α}

omit [DecidableEq α] in
theorem sublist_addTail (ordered : nodes <+ queues j) : nodes <+ addTail queues i a j := by
  rw [addTail]
  by_cases same : j = i
  · subst same
    rw [Function.update_self]
    exact ordered.trans (List.sublist_append_left _ _)
  · rw [Function.update_of_ne same]
    exact ordered

omit [DecidableEq ι] in
theorem sublist_del (ordered : nodes <+ queues j) (absent : a ∉ nodes) :
    nodes <+ del queues a j := by
  have erased := ordered.erase a
  rwa [List.erase_of_not_mem absent] at erased

theorem sublist_move (ordered : nodes <+ queues j) (absent : a ∉ nodes) :
    nodes <+ move queues i a j :=
  sublist_addTail (sublist_del ordered absent)

end Order

/-! ## Places

The place of a node in its queue is the number of nodes ahead of it. -/

section Places

omit [DecidableEq ι] in
theorem place_erase_le (apart : b ≠ a) (nodes : List α) :
    (nodes.erase b).idxOf a ≤ nodes.idxOf a := by
  induction nodes with
  | nil => simp
  | cons c nodes ih =>
      by_cases removed : c = b
      · subst removed
        rw [List.erase_cons_head, List.idxOf_cons_ne _ apart]
        exact Nat.le_succ _
      · rw [List.erase_cons_tail (by simpa using removed)]
        by_cases same : c = a
        · subst same
          simp
        · rw [List.idxOf_cons_ne _ same, List.idxOf_cons_ne _ same]
          exact Nat.succ_le_succ ih

omit [DecidableEq ι] in
theorem place_del_le (apart : b ≠ a) (j : ι) :
    (del queues b j).idxOf a ≤ (queues j).idxOf a :=
  place_erase_le apart (queues j)

omit [DecidableEq ι] in
/-- Without the head of a queue, the others are one place further ahead. -/
theorem place_del_head (head : (queues j).head? = some b) (apart : b ≠ a) :
    (del queues b j).idxOf a + 1 = (queues j).idxOf a := by
  rw [del]
  cases queue : queues j with
  | nil =>
      rw [queue] at head
      cases head
  | cons c nodes =>
      rw [queue] at head
      obtain rfl : c = b := Option.some.inj head
      rw [List.erase_cons_head, List.idxOf_cons_ne _ apart]

theorem place_addTail (queued : a ∈ queues j) :
    (addTail queues i b j).idxOf a = (queues j).idxOf a := by
  rw [addTail]
  by_cases same : j = i
  · subst same
    rw [Function.update_self, List.idxOf_append_of_mem queued]
  · rw [Function.update_of_ne same]

omit [DecidableEq α] in
/-- The head of a queue that is not empty stays when a node arrives. -/
theorem head_addTail (queued : a ∈ queues j) :
    (addTail queues i b j).head? = (queues j).head? := by
  rw [addTail]
  by_cases same : j = i
  · subst same
    rw [Function.update_self, List.head?_append_of_ne_nil _ (List.ne_nil_of_mem queued)]
  · rw [Function.update_of_ne same]

omit [DecidableEq ι] in
/-- And it stays when another node leaves. -/
theorem head_del (head : (queues j).head? = some a) (apart : a ≠ b) :
    (del queues b j).head? = some a := by
  rw [del]
  cases queue : queues j with
  | nil =>
      rw [queue] at head
      cases head
  | cons c nodes =>
      rw [queue] at head
      obtain rfl : c = a := Option.some.inj head
      rw [List.erase_cons_tail (by simpa using apart)]
      rfl

end Places

/-! ## Counting -/

section Count

variable [Fintype ι]

omit [DecidableEq α] in
theorem total_addTail : total (addTail queues i a) = total queues + 1 := by
  unfold total
  have lengths : ∀ j, (addTail queues i a j).length =
      (queues j).length + if j = i then 1 else 0 := by
    intro j
    rw [addTail]
    by_cases same : j = i
    · subst same
      simp
    · simp [same]
  simp [lengths, Finset.sum_add_distrib]

theorem Distinct.total_del (distinct : Distinct queues) (linked : Linked queues a) :
    total (Queues.del queues a) + 1 = total queues := by
  obtain ⟨i, member⟩ := linked
  have lengths : ∀ j, (queues j).length =
      (Queues.del queues a j).length + if j = i then 1 else 0 := by
    intro j
    by_cases same : j = i
    · subst same
      have positive := List.length_pos_of_mem member
      rw [Queues.del, List.length_erase_of_mem member, if_pos rfl]
      omega
    · have absent : a ∉ queues j := by
        intro other
        exact same (distinct.unique other member)
      rw [Queues.del, List.erase_of_not_mem absent, if_neg same, Nat.add_zero]
  simp [total, lengths, Finset.sum_add_distrib]

theorem Distinct.total_move (distinct : Distinct queues) (linked : Linked queues a) :
    total (Queues.move queues i a) = total queues := by
  rw [Queues.move, total_addTail, distinct.total_del linked]

omit [DecidableEq ι] in
/-- A queue of known nodes without repetition is not longer than all the queues they are in. -/
theorem length_le_total {nodes : List α} (nodup : nodes.Nodup)
    (linked : ∀ a ∈ nodes, Linked queues a) : nodes.length ≤ total queues := by
  have known : nodes.toFinset ⊆ Finset.univ.biUnion fun i => (queues i).toFinset := by
    intro a member
    obtain ⟨i, queued⟩ := linked a (List.mem_toFinset.mp member)
    exact Finset.mem_biUnion.mpr ⟨i, Finset.mem_univ i, List.mem_toFinset.mpr queued⟩
  calc nodes.length = nodes.toFinset.card := (List.toFinset_card_of_nodup nodup).symm
    _ ≤ (Finset.univ.biUnion fun i => (queues i).toFinset).card := Finset.card_le_card known
    _ ≤ ∑ i, (queues i).toFinset.card := Finset.card_biUnion_le
    _ ≤ total queues := Finset.sum_le_sum fun i _ => List.toFinset_card_le (queues i)

end Count

/-! ## Sweeps -/

/-- Walk over nodes and move those with the property to the tail of a queue. -/
def sweep (moves : α → Bool) (target : ι) (queues : ι → List α) (nodes : List α) : ι → List α :=
  nodes.foldl (fun queues a => if moves a then move queues target a else queues) queues

theorem erase_append_cons {before after : List α} (nodup : (before ++ a :: after).Nodup) :
    (before ++ a :: after).erase a = before ++ after := by
  have absent : a ∉ before := by
    intro member
    exact (List.nodup_append.mp nodup).2.2 a member a List.mem_cons_self rfl
  rw [List.erase_append_right _ absent, List.erase_cons_head]

/-- What the sweep of queue `i` leaves. -/
def swept (moves : α → Bool) (i target : ι) (queues : ι → List α) : ι → List α := fun l =>
  if l = i then (queues i).filter fun a => !moves a
  else if l = target then queues target ++ (queues i).filter moves
  else queues l

-- The walk has passed the nodes `kept`, which stay, and has the nodes `rest` ahead.
theorem sweep_aux (moves : α → Bool) (different : i ≠ j) :
    ∀ (rest kept : List α) (queues : ι → List α), Distinct queues → queues i = kept ++ rest →
      sweep moves j queues rest = fun l =>
        if l = i then kept ++ rest.filter fun a => !moves a
        else if l = j then queues j ++ rest.filter moves
        else queues l
  | [], kept, queues, _, ahead => by
      funext l
      by_cases atI : l = i
      · simp [sweep, atI, ahead]
      · by_cases atJ : l = j <;> simp [sweep, atI, atJ, different.symm]
  | a :: rest, kept, queues, distinct, ahead => by
      by_cases moving : moves a
      · have nodup : (kept ++ a :: rest).Nodup := ahead ▸ distinct.nodup i
        have member : a ∈ queues i := by simp [ahead]
        have others : ∀ l, l ≠ i → del queues a l = queues l := by
          intro l apart
          exact List.erase_of_not_mem fun other => apart (distinct.unique other member)
        have moved : move queues j a i = kept ++ rest := by
          rw [move, Queues.addTail, Function.update_of_ne different, del, ahead,
            erase_append_cons nodup]
        have step : sweep moves j queues (a :: rest) = sweep moves j (move queues j a) rest := by
          simp [sweep, moving]
        rw [step, sweep_aux moves different rest kept _ (distinct.move j a) moved]
        funext l
        by_cases atI : l = i
        · simp [atI, moving]
        · by_cases atJ : l = j
          · subst atJ
            simp [move, Queues.addTail, others l atI, moving, atI]
          · simp [move, Queues.addTail, others l atI, atI, atJ]
      · have step : sweep moves j queues (a :: rest) = sweep moves j queues rest := by
          simp [sweep, moving]
        rw [step, sweep_aux moves different rest (kept ++ [a]) queues distinct (by simp [ahead])]
        funext l
        simp [moving]

/-- **The sweep of a queue.** -/
theorem Distinct.sweep_eq_swept (distinct : Distinct queues) (moves : α → Bool)
    (different : i ≠ j) : sweep moves j queues (queues i) = swept moves i j queues :=
  sweep_aux moves different (queues i) [] queues distinct rfl

omit [DecidableEq α] in
theorem swept_congr {moves moves' : α → Bool} (same : ∀ a ∈ queues i, moves a = moves' a) :
    swept moves i j queues = swept moves' i j queues := by
  funext l
  have kept : ((queues i).filter fun a => !moves a) = (queues i).filter fun a => !moves' a :=
    List.filter_congr fun a member => by rw [same a member]
  have moved : (queues i).filter moves = (queues i).filter moves' := List.filter_congr same
  simp only [swept, kept, moved]

omit [DecidableEq α] in
/-- Where a node of the swept family comes from. -/
theorem mem_swept {moves : α → Bool} {l : ι} (member : a ∈ swept moves i j queues l) :
    a ∈ queues l ∨ (l = j ∧ a ∈ queues i) := by
  rw [swept] at member
  split at member
  · next same => exact .inl (same ▸ List.mem_of_mem_filter member)
  · split at member
    · next same =>
        rcases List.mem_append.mp member with before | moved
        · exact .inl (same ▸ before)
        · exact .inr ⟨same, List.mem_of_mem_filter moved⟩
    · exact .inl member

/-- A sweep keeps what the move of each of its nodes keeps. -/
theorem sweep_induction {Inv : (ι → List α) → Prop} {moves : α → Bool} (nodes : List α)
    (keeps : ∀ queues, ∀ a ∈ nodes, Inv queues → Inv (move queues j a)) (holds : Inv queues) :
    Inv (sweep moves j queues nodes) := by
  rw [sweep]
  induction nodes generalizing queues with
  | nil => exact holds
  | cons a nodes ih =>
      rw [List.foldl_cons]
      apply ih fun queues b member => keeps queues b (List.mem_cons_of_mem a member)
      split
      · exact keeps queues a List.mem_cons_self holds
      · exact holds

theorem Distinct.swept (distinct : Distinct queues) (moves : α → Bool) (different : i ≠ j) :
    Distinct (swept moves i j queues) :=
  distinct.sweep_eq_swept moves different ▸
    sweep_induction (queues i) (fun _ a _ distinct => distinct.move j a) distinct

/-- A sweep moves nodes and loses none. -/
theorem Distinct.swept_keeps [Fintype ι] (distinct : Distinct queues) (moves : α → Bool)
    (different : i ≠ j) :
    (∀ b, Linked (Queues.swept moves i j queues) b ↔ Linked queues b) ∧
      total (Queues.swept moves i j queues) = total queues := by
  let Inv := fun next : ι → List α =>
    Distinct next ∧ (∀ b, Linked next b ↔ Linked queues b) ∧ total next = total queues
  have holds : Inv (sweep moves j queues (queues i)) := by
    refine sweep_induction (queues i) ?_ ⟨distinct, fun _ => Iff.rfl, rfl⟩
    rintro next a member ⟨distinct, linked, count⟩
    have present : Linked next a := (linked a).mpr ⟨i, member⟩
    exact ⟨distinct.move j a, fun b => (distinct.linked_move present).trans (linked b),
      (distinct.total_move present).trans count⟩
  rw [distinct.sweep_eq_swept moves different] at holds
  exact holds.2

end OsTasks.Lib.Queues
