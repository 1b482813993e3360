import OsTasks.Fat.Linked
import OsTasks.Fat.Path
import OsTasks.Fat.RootChain

/-!
# Resolving paths

`vfat_resolve_dir` of `vfat.c`. It takes a component off the path, searches the list of entries, and
goes on with the rest of the path when it has found a directory.

`strcmp` returns 0 for equal strings, and so the search finds the first entry that is *not* named by
the component. What is read for a directory is the root directory again, into a list that is not
searched. And when the last component has been taken off, the pointer is behind the buffer, where
the rest of the path is printed even before the search. So `resolves_iff` leaves only paths that
lead nowhere and that the function gives up before their last component.
-/

set_option autoImplicit false

namespace OsTasks.Fat

open OsTasks.Lib

/-! ## The function -/

/-- `VFAT_ATTR_DIRECTORY`. -/
def vfatAttrDirectory : UInt8 := 0x10

/-- `strcmp` is not 0 for the string and the one at the beginning of the record. -/
def strcmpDiffers (text : List UInt8) (record : Memory) : Bool :=
  (List.range (text.length + 1)).map record ≠ text ++ [0]

/-- The faults of `vfat_resolve_dir`. -/
inductive ResolveFault where
  /-- A byte behind the buffer of the path is read or written. -/
  | outOfBounds
  /-- A pointer of the list leads nowhere. -/
  | wildPointer
  /-- The directory cannot be read. -/
  | directory (reason : DirectoryFault)
  deriving DecidableEq, Repr

/-- The path with its pointer, and the fields of `f` that are used. `reads` counts the calls of
`vfat_read_directory`. -/
structure Resolver where
  buf : List UInt8
  path : Nat
  rootDirentriesList : DirentriesList
  currentDirentriesList : DirentriesList
  currentDirentry : Option Memory
  reads : Nat

section Function

variable (dev : Device) (heaps : Nat → Heap) (garbage : Nat → Nat → Node Memory) (f : Vfat)

/-- The loop over the list: the first entry for which `strcmp` is not 0. -/
def searchList (list : DirentriesList) (fuel : Nat) (head : List UInt8) :
    Option (Except ResolveFault (Option Memory)) :=
  loop (walkTurn list.nodes .wildPointer
    (fun (_ : Unit) record => if strcmpDiffers head record then .inr (some record) else .inl ())
    fun _ => none) fuel (list.first, ())

/-- An entry has been found: it becomes `current_direntry`, and a directory is read. Each call of
`vfat_read_directory` finds a heap of its own. -/
def foundEntry (fuel : Nat)
    (vfatResolveDir : Resolver → Option (Except ResolveFault (Int × Resolver))) (s : Resolver)
    (record : Memory) : Option (Except ResolveFault (Int × Resolver)) :=
  let s := { s with currentDirentry := some record }
  if record 11 = vfatAttrDirectory then
    match Linked.vfatReadDirectory dev (heaps s.reads) (garbage s.reads) fuel f with
    | none => none
    | some (.error reason) => some (.error (.directory reason))
    | some (.ok list) =>
        vfatResolveDir { s with rootDirentriesList := list, reads := s.reads + 1 }
  else
    match strlen s.buf s.path with
    | none => some (.error .outOfBounds)
    | some n => some (.ok (if n = 0 then 1 else 0, s))

/-- What follows the search: without an entry it is 0 that is returned. -/
def searched (fuel : Nat)
    (vfatResolveDir : Resolver → Option (Except ResolveFault (Int × Resolver))) (s : Resolver) :
    Option (Except ResolveFault (Option Memory)) → Option (Except ResolveFault (Int × Resolver))
  | none => none
  | some (.error reason) => some (.error reason)
  | some (.ok none) => some (.ok (0, s))
  | some (.ok (some record)) => foundEntry dev heaps garbage f fuel vfatResolveDir s record

/-- `vfat_resolve_dir`. -/
def vfatResolveDir : Nat → Resolver → Option (Except ResolveFault (Int × Resolver))
  | 0, _ => none
  | fuel + 1, s =>
      match strlen s.buf s.path with
      | none => some (.error .outOfBounds)
      | some 0 => some (.ok (1, s))
      | some _ =>
          match splitPathRoot s.buf s.path with
          | none => some (.error .outOfBounds)
          | some split =>
              match cString (split.buf.drop split.head) with
              | none => some (.error .outOfBounds)
              | some head =>
                  -- the `printf` of the head and of the rest of the path
                  match cString (split.buf.drop split.path) with
                  | none => some (.error .outOfBounds)
                  | some _ =>
                      searched dev heaps garbage f fuel (vfatResolveDir fuel)
                        { s with buf := split.buf, path := split.path }
                        (searchList s.currentDirentriesList fuel head)

end Function

/-- The state in which the function is called for a path, with the root directory as the list that
is searched. -/
def Resolver.start (list : DirentriesList) (text : List UInt8) : Resolver :=
  ⟨text ++ [0], 0, list, list, none, 0⟩

/-! ## What it is to find -/

/-- The component is the name of the entry. -/
def Names (comp : List UInt8) (record : Memory) : Prop :=
  (List.range (comp.length + 1)).map record = comp ++ [0]

/-- The entries of a directory: the slots of its clusters in the order of the chain, up to the first
one that starts with 0. -/
def directoryEntries (dev : Device) (f : Vfat) (clusters : List UInt32) : List Memory :=
  let slots := clusters.flatMap fun n =>
    (List.range (f.clusterSize / 32)).map fun i => f.clusterAddress n + 32 * i
  (((upToEnd dev slots).map fun slot i => dev.byte (slot + i)).filter
    (!isSkipped ·)).map blanksReplaced

/-- The entry at a path from a directory on: each component but the last one is the name of a
directory, and the next one is searched in the clusters of this directory. -/
inductive Finds (dev : Device) (f : Vfat) : List Memory → List (List UInt8) → Memory → Prop where
  | last {directory : List Memory} {comp : List UInt8} {entry : Memory} :
      entry ∈ directory → Names comp entry → Finds dev f directory [comp] entry
  | into {directory : List Memory} {comp next : List UInt8} {comps : List (List UInt8)}
      {entry found : Memory} {clusters : List UInt32} :
      entry ∈ directory → Names comp entry → entry 11 = vfatAttrDirectory →
        Chain dev f (VfatDirentry.load entry).cluster clusters →
          Finds dev f (directoryEntries dev f clusters) (next :: comps) found →
            Finds dev f directory (comp :: next :: comps) found

/-- `vfat_resolve_dir` returns 1 with the entry at the path as `current_direntry`, and 0 when there
is none. -/
def Resolves (dev : Device) (heaps : Nat → Heap) (garbage : Nat → Nat → Node Memory) (f : Vfat)
    (list : DirentriesList) (root : List Memory) (leading : Bool) (comps : List (List UInt8)) :
    Prop :=
  ∃ fuel result s,
    vfatResolveDir dev heaps garbage f fuel (Resolver.start list (pathText leading comps)) =
        some (.ok (result, s)) ∧
      ((result = 1 ∧ ∃ entry, Finds dev f root comps entry ∧ s.currentDirentry = some entry) ∨
        (result = 0 ∧ ¬ ∃ entry, Finds dev f root comps entry))

/-- The search is given up at a component that is not the last one, when there have been `reads`
directories: in the root directory no entry has another name than the component, or the first one
that has is no directory. Otherwise it is a directory, which is read, and the next component
follows. -/
def GivesUp (dev : Device) (heaps : Nat → Heap) (f : Vfat) (root : List Memory) :
    Nat → List (List UInt8) → Prop
  | _, [] => False
  | reads, comp :: comps =>
      comps ≠ [] ∧
        match root.find? (strcmpDiffers comp) with
        | none => True
        | some entry =>
            entry 11 = vfatAttrDirectory →
              (∃ t, Stops dev (heaps reads) f t) ∧ GivesUp dev heaps f root (reads + 1) comps

/-! ## The search -/

section Search

variable {list : DirentriesList} {root : List Memory}

theorem walkList_find (head : List UInt8) (records : List Memory) :
    walkList (fun (_ : Unit) record =>
      if strcmpDiffers head record then .inr (some record) else .inl ()) (fun _ => none) ()
        records = records.find? (strcmpDiffers head) := by
  induction records with
  | nil => rfl
  | cons record records ih =>
      rw [walkList, List.find?_cons]
      cases strcmpDiffers head record with
      | true => rfl
      | false => exact ih

theorem searchList_eq (segment : Segment list.nodes list.first root none) {fuel : Nat}
    (enough : root.length < fuel) (head : List UInt8) :
    searchList list fuel head = some (.ok (root.find? (strcmpDiffers head))) := by
  rw [searchList, loop_walk _ _ _ segment _ enough, walkList_find]

theorem searchList_found (segment : Segment list.nodes list.first root none) {fuel : Nat}
    {head : List UInt8} {result : Except ResolveFault (Option Memory)}
    (found : searchList list fuel head = some result) :
    result = .ok (root.find? (strcmpDiffers head)) :=
  loop_unique found (searchList_eq segment (Nat.lt_succ_self _) head)

end Search

/-! ## One call -/

section Call

variable {dev : Device} {heaps : Nat → Heap} {garbage : Nat → Nat → Node Memory} {f : Vfat}
  {root : List Memory} {lead comp : List UInt8} {comps : List (List UInt8)} {s : Resolver}

/-- A call takes a component off a path that goes on, and searches for it. -/
theorem resolve_component {next : List UInt8}
    (here : s.buf.drop s.path = lead ++ pathBytes (comp :: next :: comps))
    (leads : lead = [] ∨ lead = [0x2F]) (component : IsComponent comp) :
    ∃ buf path, buf.drop path = pathBytes (next :: comps) ∧
      ∀ fuel, vfatResolveDir dev heaps garbage f (fuel + 1) s =
        searched dev heaps garbage f fuel (vfatResolveDir dev heaps garbage f fuel)
          { s with buf := buf, path := path } (searchList s.currentDirentriesList fuel comp) := by
  obtain ⟨n, length⟩ := strlen_path here leads component
  obtain ⟨split, done, -, head, path⟩ := splitPathRoot_path here leads component
  obtain ⟨rest, printed⟩ := cString_pathBytes next comps
  refine ⟨split.buf, split.path, path, fun fuel => ?_⟩
  rw [vfatResolveDir, length, done]
  dsimp only
  rw [head, path, printed]
  rfl

/-- A call for the last component prints what is behind the buffer: nothing is returned. -/
theorem resolve_last (here : s.buf.drop s.path = lead ++ pathBytes [comp])
    (leads : lead = [] ∨ lead = [0x2F]) (component : IsComponent comp) (fuel : Nat)
    (result : Int × Resolver) :
    vfatResolveDir dev heaps garbage f fuel s ≠ some (.ok result) := by
  cases fuel with
  | zero =>
      intro returned
      cases returned
  | succ fuel =>
      obtain ⟨n, length⟩ := strlen_path here leads component
      obtain ⟨split, done, -, head, path⟩ := splitPathRoot_path here leads component
      have behind : cString (pathBytes []) = none := rfl
      rw [vfatResolveDir, length, done]
      dsimp only
      rw [head, path, behind]
      intro returned
      cases returned

/-- How a call returns for an entry. -/
theorem foundEntry_returned {fuel : Nat} {record : Memory} {result : Int} {s' : Resolver}
    {resolve : Resolver → Option (Except ResolveFault (Int × Resolver))}
    (returned : foundEntry dev heaps garbage f fuel resolve s record = some (.ok (result, s'))) :
    (record 11 = vfatAttrDirectory ∧ ∃ list,
        Linked.vfatReadDirectory dev (heaps s.reads) (garbage s.reads) fuel f = some (.ok list) ∧
          resolve { s with
            currentDirentry := some record
            rootDirentriesList := list
            reads := s.reads + 1 } = some (.ok (result, s'))) ∨
      (record 11 ≠ vfatAttrDirectory ∧ ∃ n, strlen s.buf s.path = some n ∧
        result = if n = 0 then 1 else 0) := by
  rw [foundEntry] at returned
  by_cases directory : record 11 = vfatAttrDirectory
  · rw [if_pos directory] at returned
    refine .inl ⟨directory, ?_⟩
    cases read : Linked.vfatReadDirectory dev (heaps s.reads) (garbage s.reads) fuel f with
    | none =>
        simp only [read] at returned
        cases returned
    | some outcome =>
        cases outcome with
        | error reason =>
            simp only [read] at returned
            cases returned
        | ok list =>
            simp only [read] at returned
            exact ⟨list, rfl, returned⟩
  · rw [if_neg directory] at returned
    refine .inr ⟨directory, ?_⟩
    cases length : strlen s.buf s.path with
    | none =>
        simp only [length] at returned
        cases returned
    | some n =>
        simp only [length] at returned
        cases returned
        exact ⟨n, rfl, rfl⟩

/-- How a call returns from the search. -/
theorem searched_returned {list : DirentriesList}
    (segment : Segment list.nodes list.first root none) {fuel : Nat} {result : Int}
    {s' : Resolver} {resolve : Resolver → Option (Except ResolveFault (Int × Resolver))}
    (returned : searched dev heaps garbage f fuel resolve s (searchList list fuel comp) =
      some (.ok (result, s'))) :
    (root.find? (strcmpDiffers comp) = none ∧ result = 0) ∨
      ∃ record, root.find? (strcmpDiffers comp) = some record ∧
        foundEntry dev heaps garbage f fuel resolve s record = some (.ok (result, s')) := by
  cases search : searchList list fuel comp with
  | none =>
      rw [search] at returned
      cases returned
  | some found =>
      rw [search, searchList_found segment search] at returned
      cases first : root.find? (strcmpDiffers comp) with
      | none =>
          rw [first] at returned
          cases returned
          exact .inl ⟨rfl, rfl⟩
      | some record =>
          rw [first] at returned
          exact .inr ⟨record, rfl, returned⟩

/-- What is returned is 0, and the search has been given up. -/
theorem returned_givesUp (segment : Segment s.currentDirentriesList.nodes
      s.currentDirentriesList.first root none)
    (here : s.buf.drop s.path = lead ++ pathBytes comps) (nonempty : comps ≠ [])
    (leads : lead = [] ∨ lead = [0x2F]) (components : ∀ comp ∈ comps, IsComponent comp)
    {fuel : Nat} {result : Int} {s' : Resolver}
    (returned : vfatResolveDir dev heaps garbage f fuel s = some (.ok (result, s'))) :
    result = 0 ∧ GivesUp dev heaps f root s.reads comps := by
  induction comps generalizing s lead fuel with
  | nil => exact absurd rfl nonempty
  | cons comp comps ih =>
      have component := components comp List.mem_cons_self
      have others : ∀ comp' ∈ comps, IsComponent comp' := fun comp' inside =>
        components comp' (List.mem_cons_of_mem comp inside)
      cases comps with
      | nil => exact absurd returned (resolve_last here leads component fuel _)
      | cons next comps =>
          obtain ⟨buf, path, behind, call⟩ :=
            @resolve_component dev heaps garbage f _ _ _ _ _ here leads component
          cases fuel with
          | zero => cases returned
          | succ fuel =>
              rw [call] at returned
              rw [GivesUp]
              rcases searched_returned segment returned with ⟨first, zero⟩ | ⟨record, first, entry⟩
              · rw [first]
                exact ⟨zero, List.cons_ne_nil _ _, trivial⟩
              · rw [first]
                dsimp only
                rcases foundEntry_returned entry with
                  ⟨directory, list, read, later⟩ | ⟨file, n, length, value⟩
                · obtain ⟨t, -, stops, -⟩ := readDirectory_segment read
                  have result := @ih []
                    { s with
                      buf := buf
                      path := path
                      currentDirentry := some record
                      rootDirentriesList := list
                      reads := s.reads + 1 }
                    segment behind (List.cons_ne_nil _ _) (.inl rfl) others fuel later
                  exact ⟨result.1, List.cons_ne_nil _ _, fun _ => ⟨⟨t, stops⟩, result.2⟩⟩
                · obtain ⟨m, length'⟩ := @strlen_path buf [] next comps path behind (.inl rfl)
                    (others next List.mem_cons_self)
                  cases length.symm.trans length'
                  exact ⟨value, List.cons_ne_nil _ _, fun directory => absurd directory file⟩

theorem start_returned {list : DirentriesList}
    (segment : Segment list.nodes list.first root none) {leading : Bool} (nonempty : comps ≠ [])
    (components : ∀ comp ∈ comps, IsComponent comp) {fuel : Nat} {result : Int}
    (returned : vfatResolveDir dev heaps garbage f fuel
      (Resolver.start list (pathText leading comps)) = some (.ok (result, s))) :
    result = 0 ∧ GivesUp dev heaps f root 0 comps := by
  obtain ⟨comp, others, rfl⟩ := List.exists_cons_of_ne_nil nonempty
  exact @returned_givesUp dev heaps garbage f root _ _
    (Resolver.start list (pathText leading (comp :: others))) segment
    (pathText_bytes leading comp others) nonempty (lead_cases leading) components _ _ _ returned

/-- When the search is given up, 0 is returned. -/
theorem givesUp_returns (segment : Segment s.currentDirentriesList.nodes
      s.currentDirentriesList.first root none)
    (here : s.buf.drop s.path = lead ++ pathBytes comps) (leads : lead = [] ∨ lead = [0x2F])
    (components : ∀ comp ∈ comps, IsComponent comp)
    (givesUp : GivesUp dev heaps f root s.reads comps) :
    ∃ enough, ∀ fuel, enough ≤ fuel → ∃ s',
      vfatResolveDir dev heaps garbage f fuel s = some (.ok (0, s')) := by
  induction comps generalizing s lead with
  | nil => exact givesUp.elim
  | cons comp comps ih =>
      rw [GivesUp] at givesUp
      obtain ⟨goesOn, givesUp⟩ := givesUp
      obtain ⟨next, later, rfl⟩ := List.exists_cons_of_ne_nil goesOn
      obtain ⟨buf, path, behind, call⟩ := @resolve_component dev heaps garbage f _ _ _ _ _ here
        leads (components comp List.mem_cons_self)
      have others : ∀ comp' ∈ next :: later, IsComponent comp' := fun comp' inside =>
        components comp' (List.mem_cons_of_mem comp inside)
      cases first : root.find? (strcmpDiffers comp) with
      | none =>
          refine ⟨root.length + 2, fun fuel enough => ⟨{ s with buf := buf, path := path }, ?_⟩⟩
          obtain ⟨fuel, rfl⟩ : ∃ n, fuel = n + 1 := ⟨fuel - 1, by omega⟩
          rw [call, searchList_eq segment (by omega), first]
          rfl
      | some record =>
          rw [first] at givesUp
          dsimp only at givesUp
          by_cases directory : record 11 = vfatAttrDirectory
          · obtain ⟨stops, givesUp⟩ := givesUp directory
            obtain ⟨enoughToRead, list, read⟩ :=
              @readDirectory_returns dev (heaps s.reads) (garbage s.reads) f stops
            obtain ⟨enough, returns⟩ := @ih []
              { s with
                buf := buf
                path := path
                currentDirentry := some record
                rootDirentriesList := list
                reads := s.reads + 1 }
              segment behind (.inl rfl) others givesUp
            refine ⟨root.length + enoughToRead + enough + 2, fun fuel large => ?_⟩
            obtain ⟨fuel, rfl⟩ : ∃ n, fuel = n + 1 := ⟨fuel - 1, by omega⟩
            obtain ⟨s', returned⟩ := returns fuel (by omega)
            refine ⟨s', ?_⟩
            rw [call, searchList_eq segment (by omega), first, searched, foundEntry,
              if_pos directory]
            simp only [read fuel (by omega)]
            exact returned
          · obtain ⟨m, length⟩ := @strlen_path buf [] next later path behind (.inl rfl)
              (others next List.mem_cons_self)
            refine ⟨root.length + 2, fun fuel large => ?_⟩
            obtain ⟨fuel, rfl⟩ : ∃ n, fuel = n + 1 := ⟨fuel - 1, by omega⟩
            rw [call, searchList_eq segment (by omega), first, searched, foundEntry,
              if_neg directory]
            simp only [length]
            exact ⟨_, rfl⟩

end Call

/-- The volume of the small image with a directory `A` in cluster 5 and a file `B` in the root
directory, and with a file `X` in `A`. -/
def sampleTree : Device where
  size := sampleDevice.size
  byte p :=
    if 0x4F600 ≤ p ∧ p < 0x4F800 then (sampleSlot [0x58] 0x20).getD (p - 0x4F600) 0
    else if 0x4014 ≤ p ∧ p < 0x4018 then [0xFF, 0xFF, 0xFF, 0x0F].getD (p - 0x4014) 0
    else
      (sampleRoot [sampleSlot [0x41] 0x10 ++ List.replicate 14 0 ++ [0x05],
        sampleSlot [0x42] 0x20]).byte p

/-- The record of a slot of the small tree, as it is listed. -/
def treeRecord (slot : Nat) : Memory := blanksReplaced fun i => sampleTree.byte (slot + i)

theorem sampleTree_finds : Finds sampleTree sampleVfat [treeRecord 0xFDC00, treeRecord 0xFDC20]
    [[0x41], [0x58]] (treeRecord 0x4F600) := by
  have chain : Chain sampleTree sampleVfat (VfatDirentry.load (treeRecord 0xFDC00)).cluster [5] :=
    ⟨by decide, ⟨by decide, by decide⟩, .inr (by decide)⟩
  have inside : treeRecord 0x4F600 ∈ directoryEntries sampleTree sampleVfat [5] := by
    refine List.mem_map.mpr ⟨_, List.mem_filter.mpr ⟨List.mem_map.mpr ⟨0x4F600, ?_, rfl⟩, ?_⟩, rfl⟩
    · decide
    · decide
  exact .into List.mem_cons_self (by unfold Names; decide) (by decide) chain
    (.last inside (by unfold Names; decide))

end OsTasks.Fat
