import OsTasks.Fat.Names

/-!
# Splitting paths

`split_path_root` of `vfat.c`, and the loop of `vfat_resolve_dir` that takes one component of a path
after the other. The path is in a buffer that ends with its NUL, as `vfat_resolve` allocates it, and
reading behind the buffer is a fault.

`split_path_root` overwrites the byte behind the component and steps over it, also when this byte
is the NUL at the end of the path. So the components come out one after the other (`splits_all`),
but the pointer has then left the buffer, and `splits_iff` says that this happens for every path
but the empty one.
-/

set_option autoImplicit false

namespace OsTasks.Fat

open OsTasks.Lib

/-! ## The functions -/

/-- `strlen`, if there is a NUL in the buffer from `p` on. -/
def strlen (buf : List UInt8) (p : Nat) : Option Nat := (cString (buf.drop p)).map List.length

/-- `while (**path && (**path != '/')) ++(*path);`: the number of steps. -/
def componentLength : List UInt8 → Option Nat
  | [] => none
  | c :: rest => if c ≠ 0 ∧ c ≠ 0x2F then (componentLength rest).map (· + 1) else some 0

/-- The buffer and the two pointers when `split_path_root` returns. -/
structure Split where
  buf : List UInt8
  path : Nat
  head : Nat

/-- `split_path_root`. -/
def splitPathRoot (buf : List UInt8) (path : Nat) : Option Split := do
  let c ← buf[path]?
  let head := if c ≠ 0 ∧ c = 0x2F then path + 1 else path
  let steps ← componentLength (buf.drop head)
  some ⟨buf.set (head + steps) 0, head + steps + 1, head⟩

/-- The fault of the path functions. -/
inductive PathFault where
  /-- A byte behind the buffer is read or written. -/
  | outOfBounds
  deriving DecidableEq, Repr

/-- The variables of the loop: the path with its pointer, and the components so far. -/
structure Splitting where
  buf : List UInt8
  path : Nat
  heads : List (List UInt8)

/-- The path in a buffer that ends with its NUL, before the first component. -/
def Splitting.start (text : List UInt8) : Splitting := ⟨text ++ [0], 0, []⟩

/-- Split the path again, until it is empty. -/
def splitTurn (s : Splitting) : Except PathFault (Splitting ⊕ Splitting) :=
  match strlen s.buf s.path with
  | none => .error .outOfBounds
  | some 0 => .ok (.inr s)
  | some _ =>
      match splitPathRoot s.buf s.path with
      | none => .error .outOfBounds
      | some split =>
          match cString (split.buf.drop split.head) with
          | none => .error .outOfBounds
          | some head => .ok (.inl ⟨split.buf, split.path, s.heads ++ [head]⟩)

/-! ## Paths -/

/-- The components between single slashes, with or without a slash in front. -/
def pathText (leading : Bool) (comps : List (List UInt8)) : List UInt8 :=
  (if leading then [0x2F] else []) ++ [0x2F].intercalate comps

/-- A component: it is not empty, and has no slash and no NUL. -/
def IsComponent (comp : List UInt8) : Prop := comp ≠ [] ∧ ∀ c ∈ comp, c ≠ 0 ∧ c ≠ 0x2F

instance (comp : List UInt8) : Decidable (IsComponent comp) :=
  @instDecidableAnd _ _ _ (List.decidableBAll _ comp)

/-- The loop ends with the components of the path, and its pointer never moves past the NUL that
ends the path. -/
def SplitsPath (text : List UInt8) (comps : List (List UInt8)) : Prop :=
  (∃ fuel final, loop splitTurn fuel (Splitting.start text) = some (.ok final) ∧
      final.heads = comps) ∧
    ∀ s, Visits splitTurn (Splitting.start text) s → s.path ≤ text.length

/-- The bytes of the components that follow, up to the end of the buffer. -/
def pathBytes : List (List UInt8) → List UInt8
  | [] => []
  | comp :: comps => comp ++ (if comps = [] then 0x00 else 0x2F) :: pathBytes comps

section Paths

variable {buf lead comp rest : List UInt8} {comps : List (List UInt8)} {p : Nat} {sep : UInt8}

theorem intercalate_pathBytes (nonempty : comps ≠ []) :
    [0x2F].intercalate comps ++ [0x00] = pathBytes comps := by
  induction comps with
  | nil => exact absurd rfl nonempty
  | cons comp comps ih =>
      cases comps with
      | nil => simp [pathBytes, List.intercalate]
      | cons next comps =>
          rw [pathBytes, if_neg (List.cons_ne_nil _ _), ← ih (List.cons_ne_nil _ _)]
          simp [List.intercalate]

theorem componentLength_eq (plain : ∀ c ∈ comp, c ≠ 0 ∧ c ≠ 0x2F) (ends : sep = 0 ∨ sep = 0x2F) :
    componentLength (comp ++ sep :: rest) = some comp.length := by
  induction comp with
  | nil =>
      rw [List.nil_append, componentLength, if_neg]
      · rfl
      · rintro ⟨present, other⟩
        exact ends.elim present other
  | cons c comp ih =>
      rw [List.cons_append, componentLength, if_pos (plain c List.mem_cons_self),
        ih fun c' inside => plain c' (List.mem_cons_of_mem c inside)]
      rfl

theorem lead_cases (leading : Bool) :
    (if leading then [0x2F] else []) = ([] : List UInt8) ∨
      (if leading then [0x2F] else []) = ([0x2F] : List UInt8) := by
  cases leading with
  | true => exact .inr rfl
  | false => exact .inl rfl

/-- The buffer of a path. -/
theorem pathText_bytes (leading : Bool) (comp : List UInt8) (comps : List (List UInt8)) :
    pathText leading (comp :: comps) ++ [0] =
      (if leading then [0x2F] else []) ++ pathBytes (comp :: comps) := by
  rw [pathText, List.append_assoc, intercalate_pathBytes (List.cons_ne_nil _ _)]

/-- What `split_path_root` does with a component in front of a separator or of the end. -/
theorem splitPathRoot_eq (here : buf.drop p = lead ++ (comp ++ sep :: rest))
    (leads : lead = [0x2F] ∨ lead = [] ∧ comp ≠ []) (plain : ∀ c ∈ comp, c ≠ 0 ∧ c ≠ 0x2F)
    (ends : sep = 0 ∨ sep = 0x2F) : ∃ split, splitPathRoot buf p = some split ∧
      split.buf.length = buf.length ∧ split.buf.drop split.head = comp ++ 0 :: rest ∧
        split.buf.drop split.path = rest := by
  have after : buf.drop (p + lead.length) = comp ++ sep :: rest := by
    rw [← List.drop_drop, here, List.drop_left]
  obtain ⟨c, first, head⟩ : ∃ c, buf[p]? = some c ∧
      (if c ≠ 0 ∧ c = 0x2F then p + 1 else p) = p + lead.length := by
    have first : buf[p]? = (buf.drop p)[0]? := by rw [List.getElem?_drop, Nat.add_zero]
    rw [first, here]
    rcases leads with rfl | ⟨rfl, present⟩
    · exact ⟨0x2F, rfl, if_pos (by decide)⟩
    · cases comp with
      | nil => exact absurd rfl present
      | cons c comp =>
          exact ⟨c, rfl, if_neg fun slash => (plain c List.mem_cons_self).2 slash.2⟩
  have marked : (buf.set (p + lead.length + comp.length) 0).drop (p + lead.length) =
      comp ++ 0 :: rest := by
    rw [List.drop_set, if_neg (by omega), after, Nat.add_sub_cancel_left,
      List.set_append_right _ _ (Nat.le_refl _), Nat.sub_self]
    rfl
  refine ⟨⟨buf.set (p + lead.length + comp.length) 0, p + lead.length + comp.length + 1,
    p + lead.length⟩, ?_, List.length_set, marked, ?_⟩
  · rw [splitPathRoot, first]
    simp only [bind, Option.bind, head, after, componentLength_eq plain ends]
  · have behind : (comp ++ 0 :: rest).drop (comp.length + 1) = rest := by
      rw [← List.drop_drop, List.drop_left]
      rfl
    rw [← marked, List.drop_drop, ← Nat.add_assoc] at behind
    exact behind

theorem pathBytes_ends (comp : List UInt8) (comps : List (List UInt8)) :
    0 ∈ pathBytes (comp :: comps) := by
  induction comps generalizing comp with
  | nil => exact List.mem_append_right _ List.mem_cons_self
  | cons next comps ih =>
      exact List.mem_append_right _ (List.mem_cons_of_mem _ (ih next))

theorem strlen_pos {c : UInt8} (here : buf.drop p = c :: rest) (present : c ≠ 0)
    (ends : 0 ∈ c :: rest) : ∃ n, strlen buf p = some (n + 1) := by
  refine ⟨(rest.takeWhile (· ≠ 0)).length, ?_⟩
  rw [strlen, here, cString, if_pos ends, Option.map_some,
    List.takeWhile_cons_of_pos (by simpa using present), List.length_cons]

/-- A path that goes on is not empty. -/
theorem strlen_path (here : buf.drop p = lead ++ pathBytes (comp :: comps))
    (leads : lead = [] ∨ lead = [0x2F]) (component : IsComponent comp) :
    ∃ n, strlen buf p = some (n + 1) := by
  have ends := pathBytes_ends comp comps
  rcases leads with rfl | rfl
  · cases comp with
    | nil => exact absurd rfl component.1
    | cons c comp => exact strlen_pos here (component.2 c List.mem_cons_self).1 ends
  · exact strlen_pos here (by decide) (List.mem_cons_of_mem _ ends)

theorem cString_component (plain : ∀ c ∈ comp, c ≠ 0 ∧ c ≠ 0x2F) :
    cString (comp ++ 0 :: rest) = some comp := by
  rw [cString, if_pos (List.mem_append_right _ List.mem_cons_self),
    List.takeWhile_append_of_pos (by simpa using fun c inside => (plain c inside).1),
    List.takeWhile_cons_of_neg (by decide), List.append_nil]

/-- What is left of a path that goes on is a C string. -/
theorem cString_pathBytes (comp : List UInt8) (comps : List (List UInt8)) :
    ∃ text, cString (pathBytes (comp :: comps)) = some text :=
  ⟨_, if_pos (pathBytes_ends comp comps)⟩

/-- Splitting takes the first component off. -/
theorem splitPathRoot_path (here : buf.drop p = lead ++ pathBytes (comp :: comps))
    (leads : lead = [] ∨ lead = [0x2F]) (component : IsComponent comp) :
    ∃ split, splitPathRoot buf p = some split ∧ split.buf.length = buf.length ∧
      cString (split.buf.drop split.head) = some comp ∧
        split.buf.drop split.path = pathBytes comps := by
  obtain ⟨split, done, length, head, path⟩ := splitPathRoot_eq here
    (leads.elim (fun none => .inr ⟨none, component.1⟩) .inl) component.2 (by split <;> simp)
  refine ⟨split, done, length, ?_, path⟩
  rw [head, cString_component component.2]

/-- One turn takes the first component off. -/
theorem splitTurn_component {s : Splitting}
    (here : s.buf.drop s.path = lead ++ pathBytes (comp :: comps))
    (leads : lead = [] ∨ lead = [0x2F]) (component : IsComponent comp) :
    ∃ next, splitTurn s = .ok (.inl next) ∧ next.buf.length = s.buf.length ∧
      next.buf.drop next.path = pathBytes comps ∧ next.heads = s.heads ++ [comp] := by
  obtain ⟨n, length⟩ := strlen_path here leads component
  obtain ⟨split, done, same, head, path⟩ := splitPathRoot_path here leads component
  refine ⟨⟨split.buf, split.path, s.heads ++ [comp]⟩, ?_, same, path, rfl⟩
  rw [splitTurn, length, done]
  dsimp only
  rw [head]
  rfl

/-- The loop takes all components off and then stands behind the buffer. -/
theorem splits_all {s : Splitting} (here : s.buf.drop s.path = pathBytes comps)
    (components : ∀ comp ∈ comps, IsComponent comp) : ∃ last, Visits splitTurn s last ∧
      last.buf.length = s.buf.length ∧ last.buf.drop last.path = [] ∧
        last.heads = s.heads ++ comps := by
  induction comps generalizing s with
  | nil => exact ⟨s, .start, rfl, here, (List.append_nil _).symm⟩
  | cons comp comps ih =>
      obtain ⟨next, turn, length, path, heads⟩ :=
        splitTurn_component here (.inl rfl) (components comp List.mem_cons_self)
      obtain ⟨last, visits, length', path', heads'⟩ :=
        ih path fun comp' inside => components comp' (List.mem_cons_of_mem comp inside)
      refine ⟨last, visits.of_turn turn, length'.trans length, path', ?_⟩
      rw [heads', heads, List.append_assoc]
      rfl

/-- The pointer leaves the buffer of every path that is not empty. -/
theorem splits_past (leading : Bool) (components : ∀ comp ∈ comps, IsComponent comp)
    (nonempty : pathText leading comps ≠ []) :
    ∃ s, Visits splitTurn (Splitting.start (pathText leading comps)) s ∧
      (pathText leading comps).length < s.path := by
  cases comps with
  | nil =>
      cases leading with
      | true => exact ⟨_, .turn .start rfl, by decide⟩
      | false => exact absurd rfl nonempty
  | cons comp comps =>
      obtain ⟨next, turn, length, path, -⟩ :=
        @splitTurn_component _ comp comps (Splitting.start (pathText leading (comp :: comps)))
          (pathText_bytes leading comp comps) (lead_cases leading)
          (components comp List.mem_cons_self)
      obtain ⟨last, visits, length', behind, -⟩ :=
        splits_all path fun comp' inside => components comp' (List.mem_cons_of_mem comp inside)
      refine ⟨last, visits.of_turn turn, ?_⟩
      have bound := List.drop_eq_nil_iff.mp behind
      simp only [length', length, Splitting.start, List.length_append] at bound
      exact bound

end Paths

/-- **Splitting a path.** Only the empty path is split as it should be. -/
theorem splits_iff (leading : Bool) (comps : List (List UInt8))
    (components : ∀ comp ∈ comps, IsComponent comp) :
    SplitsPath (pathText leading comps) comps ↔ pathText leading comps = [] := by
  constructor
  · rintro ⟨-, inside⟩
    by_contra nonempty
    obtain ⟨s, visits, past⟩ := splits_past leading components nonempty
    exact Nat.not_le_of_lt past (inside s visits)
  · intro empty
    cases comps with
    | nil =>
        rw [empty]
        refine ⟨⟨1, Splitting.start [], loop_done rfl, rfl⟩, fun s visits => ?_⟩
        have only : Splitting.start [] = s := by
          refine visits.keeps rfl fun s next start turn => ?_
          subst start
          cases turn
        rw [← only]
        exact Nat.le_refl 0
    | cons comp comps =>
        have present := List.length_pos_iff.mpr (components comp List.mem_cons_self).1
        have bytes := congrArg List.length (pathText_bytes leading comp comps)
        simp only [empty, pathBytes, List.length_append, List.length_cons, List.length_nil] at bytes
        omega

/-- The path `A/B`. -/
def samplePath : List (List UInt8) := [[0x41], [0x42]]

theorem splits_sample : SplitsPath (pathText false []) [] ∧
    ¬ SplitsPath (pathText true samplePath) samplePath :=
  ⟨(splits_iff false [] (by decide)).mpr rfl, fun splits =>
    absurd ((splits_iff true samplePath (by decide)).mp splits) (by decide)⟩

/-- The pointer leaves the buffer of `A/B`. -/
theorem samplePath_not_split : ¬ SplitsPath (pathText false samplePath) samplePath := by
  rintro ⟨-, inside⟩
  obtain ⟨s, visits, past⟩ := @splits_past samplePath false (by decide) (by decide)
  exact Nat.not_le_of_lt past (inside s visits)

end OsTasks.Fat
