import OsTasks.Lib.Machine
import OsTasks.Fat.Names
import OsTasks.Fat.Linked
import OsTasks.Fat.Read

/-!
# The file system as a server

`main` of `vfat.c` mounts the volume, reads the root directory and then serves the requests of FUSE:
`vfat_fuse_getattr`, `vfat_fuse_readdir` and `vfat_fuse_read`. They share the globals of `struct
vfat`: every read leaves its directory entry and cluster numbers there, and every listing the list
that it went through.

`replies_independent` says that none of this can be observed: a request has the same reply after
any requests as right after the mount. `served_listing` follows the root directory from the device
to the names that `vfat_fuse_readdir` passes on, and says when all of them are C strings. A file
listed there can be looked up only if it is called `hello`: `vfat_fuse_getattr` knows nothing else
but the root.
-/

set_option autoImplicit false

namespace OsTasks.Fat

open OsTasks.Lib

/-! ## The functions -/

/-- The globals that outlive a request. The nodes of the lists are on the heap. -/
structure Server where
  vfat : Vfat
  nodes : List (Node Memory)
  rootDirentriesList : Option Nat
  currentDirentriesList : Option Nat

/-- `ENOENT`. -/
def enoent : Int := 2

/-- `struct stat`: the fields that are set. The other ones are 0. -/
structure Stat where
  stMode : Nat
  stNlink : Nat
  stSize : Nat
  deriving DecidableEq, Repr

/-- `S_IFDIR`. -/
def sIfdir : Nat := 0o040000

/-- `S_IFREG`. -/
def sIfreg : Nat := 0o100000

/-- The path `/`. -/
def rootPath : List UInt8 := [0x2F]

/-- `hello_path`. -/
def helloPath : List UInt8 := [0x2F, 0x68, 0x65, 0x6C, 0x6C, 0x6F]

/-- `hello_str`: `Hello World!` and a newline. -/
def helloStr : List UInt8 :=
  [0x48, 0x65, 0x6C, 0x6C, 0x6F, 0x20, 0x57, 0x6F, 0x72, 0x6C, 0x64, 0x21, 0x0A]

/-- `vfat_fuse_getattr`. -/
def vfatFuseGetattr (path : List UInt8) : Int × Stat :=
  if path = rootPath then (0, ⟨sIfdir ||| 0o755, 2, 0⟩)
  else if path = helloPath then (0, ⟨sIfreg ||| 0o444, 1, helloStr.length⟩)
  else (-enoent, ⟨0, 0, 0⟩)

/-- `vfat_resolve`. It goes back to the root directory for every path but the empty one. -/
def vfatResolve (s : Server) (path : List UInt8) : Int × Server :=
  if path = [] then (1, s)
  else (0, { s with currentDirentriesList := s.rootDirentriesList })

/-- The faults of a request. -/
inductive ServerFault where
  /-- A loop goes on for more turns than there is fuel. -/
  | noFuel
  | read (fault : ReadFault)
  | list (fault : ListFault)
  deriving DecidableEq, Repr

/-- `vfat_fuse_readdir`: the value it returns and the names it passes to `filler`. -/
def vfatFuseReaddir (fuel : Nat) (s : Server) (path : List UInt8) :
    Except ServerFault ((Int × List (List UInt8)) × Server) :=
  if path ≠ rootPath then .ok ((-enoent, []), s)
  else
    let s := (vfatResolve s path).2
    match vfatReaddir s.nodes fuel s.currentDirentriesList with
    | none => .error .noFuel
    | some (.error fault) => .error (.list fault)
    | some (.ok names) => .ok ((0, names), s)

/-- A request of the kernel. A read comes with the buffer to fill. -/
inductive Request where
  | getattr (path : List UInt8)
  | readdir (path : List UInt8)
  | read (path buf : List UInt8) (size : Nat) (offset : Int)
  deriving DecidableEq, Repr

/-- What a request returns, and what it writes for the caller. -/
inductive Reply where
  | attr (result : Int) (st : Stat)
  | entries (result : Int) (names : List (List UInt8))
  | data (result : Int) (buf : List UInt8)
  deriving DecidableEq, Repr

/-- The operation of `vfat_ops` for a request. -/
def serve (dev : Device) (fuel : Nat) (s : Server) : Request → Except ServerFault (Reply × Server)
  | .getattr path => .ok (.attr (vfatFuseGetattr path).1 (vfatFuseGetattr path).2, s)
  | .readdir path => (vfatFuseReaddir fuel s path).map fun (reply, s) =>
      (.entries reply.1 reply.2, s)
  | .read _ buf size offset =>
      match vfatFuseRead dev fuel s.vfat buf size offset with
      | none => .error .noFuel
      | some (.error fault) => .error (.read fault)
      | some (.ok (result, buf, vfat)) => .ok (.data result buf, { s with vfat := vfat })

/-- The server as a machine. -/
def serverMachine (dev : Device) (fuel : Nat) : Machine Server Request ServerFault where
  step s request := (serve dev fuel s request).map Prod.snd

/-- What the kernel gets back. -/
def reply (dev : Device) (fuel : Nat) (s : Server) (request : Request) : Except ServerFault Reply :=
  (serve dev fuel s request).map Prod.fst

/-- `main` ends before it serves. -/
inductive MainStop where
  /-- `missing file system parameter`. -/
  | missing
  | init (stop : InitStop)
  | directory (fault : DirectoryFault)
  | noFuel
  deriving DecidableEq, Repr

/-- `main` up to `fuse_main`. The device is the one that `vfat_opt_args` found, if any, and the
three arguments after it are what `malloc` returns. -/
def serverMain (dev : Option Device) (boot : Memory) (heap : Heap) (garbage : Nat → Node Memory)
    (fuel : Nat) : Except MainStop Server :=
  match dev with
  | none => .error .missing
  | some dev =>
      match vfatInit dev boot unmounted with
      | .error stop => .error (.init stop)
      | .ok vfat =>
          match Linked.vfatReadRootDirectory dev heap garbage fuel vfat with
          | none => .error .noFuel
          | some (.error fault) => .error (.directory fault)
          | some (.ok list) =>
              .ok
                { vfat := vfat
                  nodes := list.nodes
                  rootDirentriesList := list.first
                  currentDirentriesList := none }

/-! ## Requests leave no traces -/

section Traces

variable {dev : Device} {fuel : Nat} {f g : Vfat}

theorem fill_fill (mem : Memory) (bytes : List UInt8) :
    fill (fill mem bytes) bytes = fill mem bytes := by
  funext i
  simp only [fill, List.getD_eq_getElem?_getD]
  cases bytes[i]? with
  | none => rfl
  | some byte => rfl

/-- Two states in which a read starts alike. -/
def StartsAlike (dev : Device) (f g : Vfat) : Prop := g.loadDirentry dev = f.loadDirentry dev

theorem startsAlike_loadDirentry : StartsAlike dev f (f.loadDirentry dev) := by
  rw [StartsAlike, Vfat.loadDirentry, Vfat.loadDirentry]
  generalize dev.pread vfatDirentrySize direntryOffset = bytes
  simp only [fill_fill]

theorem StartsAlike.setClusters (alike : StartsAlike dev f g) (current next : UInt32) :
    StartsAlike dev f (g.setClusters current next) := by
  have same : (g.setClusters current next).loadDirentry dev = g.loadDirentry dev := by
    simp only [Vfat.loadDirentry, Vfat.setClusters]
  exact same.trans alike

theorem StartsAlike.getNext (alike : StartsAlike dev f g) :
    StartsAlike dev f (getNextClusterNumber dev g).2 := by
  simp only [getNextClusterNumber]
  split
  · exact alike.setClusters _ _
  · exact alike.setClusters _ _

/-- The loop is left as it is, or after another call of `get_next_cluster_number`. -/
theorem readTurn_state {r final : Reading} (turn : readTurn dev r = .ok (.inr final)) :
    final.f = r.f ∨ final.f = (getNextClusterNumber dev r.f).2 := by
  rw [readTurn] at turn
  split at turn
  · cases turn
    exact .inl rfl
  · dsimp only at turn
    split at turn
    · cases turn
      exact .inr rfl
    · split at turn
      · cases turn
      · generalize storeBuf r.buf _ = stored at turn
        cases stored <;> cases turn

theorem StartsAlike.read (alike : StartsAlike dev f g) {buf buf' : List UInt8} {size : Nat}
    {offset result : Int} {g' : Vfat}
    (returned : vfatFuseRead dev fuel g buf size offset = some (.ok (result, buf', g'))) :
    StartsAlike dev f g' := by
  rw [vfatFuseRead] at returned
  split at returned
  · cases returned
    exact alike
  · obtain ⟨outcome, left, same⟩ := Option.map_eq_some_iff.mp returned
    cases outcome with
    | error reason => cases same
    | ok final =>
        have state : g' = final.f := (congrArg (·.2.2) (Except.ok.inj same)).symm
        have start : StartsAlike dev f (g.loadDirentry dev) :=
          startsAlike_loadDirentry.trans alike
        rw [state]
        refine loop_keeps (fun r : Reading => StartsAlike dev f r.f)
          (fun r : Reading => StartsAlike dev f r.f) ?_ ?_ start left
        · intro r next holds turn
          rw [(readTurn_again turn).1]
          exact holds.getNext
        · intro r last holds turn
          rcases readTurn_state turn with same | moved
          · rw [same]
            exact holds
          · rw [moved]
            exact holds.getNext

/-- The server differs from the one after the mount in what no request looks at. -/
structure Alike (dev : Device) (s s' : Server) : Prop where
  vfat : StartsAlike dev s.vfat s'.vfat
  nodes : s'.nodes = s.nodes
  root : s'.rootDirentriesList = s.rootDirentriesList

variable {s s' : Server} {request : Request}

theorem Alike.refl (dev : Device) (s : Server) : Alike dev s s := ⟨rfl, rfl, rfl⟩

/-- The listing always starts at the root directory. -/
theorem vfatFuseReaddir_eq (s : Server) (path : List UInt8) : vfatFuseReaddir fuel s path =
    if path ≠ rootPath then .ok ((-enoent, []), s)
    else
      match vfatReaddir s.nodes fuel s.rootDirentriesList with
      | none => .error .noFuel
      | some (.error fault) => .error (.list fault)
      | some (.ok names) =>
          .ok ((0, names), { s with currentDirentriesList := s.rootDirentriesList }) := by
  rw [vfatFuseReaddir]
  by_cases root : path = rootPath
  · have resolved : vfatResolve s path =
        (0, { s with currentDirentriesList := s.rootDirentriesList }) := by
      rw [vfatResolve, root]
      rfl
    rw [resolved]
  · rw [if_pos root, if_pos root]

/-- One request. -/
theorem Alike.step (alike : Alike dev s s') :
    Meets ((serverMachine dev fuel).step s' request) (fun _ => True) (Alike dev s) := by
  cases request with
  | getattr path => exact alike
  | readdir path =>
      refine Meets.map ?_
      rw [serve]
      refine Meets.map ?_
      rw [vfatFuseReaddir_eq]
      refine .ite (fun _ => .ok alike) fun _ => ?_
      cases vfatReaddir s'.nodes fuel s'.rootDirentriesList with
      | none => trivial
      | some outcome =>
          cases outcome with
          | error fault => trivial
          | ok names => exact ⟨alike.vfat, alike.nodes, alike.root⟩
  | read path buf size offset =>
      refine Meets.map ?_
      rw [serve]
      cases called : vfatFuseRead dev fuel s'.vfat buf size offset with
      | none => trivial
      | some outcome =>
          cases outcome with
          | error fault => trivial
          | ok outcome => exact ⟨alike.vfat.read called, alike.nodes, alike.root⟩

/-- The reply does not depend on what no request looks at. -/
theorem Alike.reply_eq (alike : Alike dev s s') :
    reply dev fuel s' request = reply dev fuel s request := by
  cases request with
  | getattr path => rfl
  | readdir path =>
      rw [reply, reply, serve, serve, vfatFuseReaddir_eq, vfatFuseReaddir_eq, alike.nodes,
        alike.root]
      split
      · rfl
      · cases vfatReaddir s.nodes fuel s.rootDirentriesList with
        | none => rfl
        | some outcome => cases outcome <;> rfl
  | read path buf size offset =>
      by_cases beyond : size ≤ sizeT offset
      · simp only [reply, serve, vfatFuseRead, if_pos beyond]
        rfl
      · simp only [reply, serve, vfatFuseRead, if_neg beyond]
        rw [alike.vfat]
        cases loop (readTurn dev) fuel ⟨s.vfat.loadDirentry dev, buf, size, offset, false⟩ with
        | none => rfl
        | some outcome => cases outcome <;> rfl

/-- **Replies do not depend on the requests before.** -/
theorem replies_independent (dev : Device) (fuel : Nat) {s s' : Server} (requests : List Request)
    (served : (serverMachine dev fuel).run s requests = .ok s') (request : Request) :
    reply dev fuel s' request = reply dev fuel s request := by
  have step : ∀ (s' : Server) (request : Request), Alike dev s s' →
      Meets ((serverMachine dev fuel).step s' request) (fun _ => True) (Alike dev s) :=
    fun _ _ alike => alike.step
  exact ((Machine.run_keeps step requests s (.refl dev s)).of_ok served).reply_eq

end Traces

/-- A listing, a read and a look at the attributes of a file. -/
def sampleRequests : List Request :=
  [.readdir rootPath, .read helloPath [0, 0] 2 0, .getattr helloPath]

theorem replies_independent_sample : ∃ s' : Server,
    (serverMachine sampleDevice 8).run ⟨sampleVfat, [], none, none⟩ sampleRequests = .ok s' ∧
      reply sampleDevice 8 s' (.read rootPath [0, 0, 0] 3 0) =
        reply sampleDevice 8 ⟨sampleVfat, [], none, none⟩ (.read rootPath [0, 0, 0] 3 0) := by
  have ran : Meets ((serverMachine sampleDevice 8).run ⟨sampleVfat, [], none, none⟩ sampleRequests)
      (fun _ => False) fun _ => True := by decide +kernel
  cases served : (serverMachine sampleDevice 8).run ⟨sampleVfat, [], none, none⟩ sampleRequests with
  | error fault => exact (ran.of_error served).elim
  | ok s' => exact ⟨s', rfl, replies_independent sampleDevice 8 sampleRequests served _⟩

/-! ## From the device to the listing -/

section Listing

variable {dev : Device} {boot : Memory} {heap : Heap} {garbage : Nat → Node Memory} {f : Vfat}

/-- What a server makes of the entries of a root directory, whatever it has been asked before. Every
buffer that is passed on is a C string. -/
structure Serves (dev : Device) (s : Server) (records : List Memory) : Prop where
  readdir : ∀ (used : Nat) (requests : List Request) (s' : Server),
    (serverMachine dev used).run s requests = .ok s' → ∀ fuel, records.length < fuel →
      ∃ names, reply dev fuel s' (.readdir rootPath) = .ok (.entries 0 names) ∧
        names.map cString = some [0x2E] :: some [0x2E, 0x2E] :: records.map (some ∘ stem)
  getattr : ∀ record ∈ records, stem record ≠ [] → stem record ≠ helloPath.tail →
    (vfatFuseGetattr (rootPath ++ stem record)).1 = -enoent

/-- A file that is not called `hello` cannot be looked up. -/
theorem vfatFuseGetattr_below {name : List UInt8} (named : name ≠ [])
    (other : name ≠ helloPath.tail) : (vfatFuseGetattr (rootPath ++ name)).1 = -enoent := by
  have notRoot : rootPath ++ name ≠ rootPath := fun same => named (by simpa using same)
  have notHello : rootPath ++ name ≠ helloPath := fun same => other (List.cons.inj same).2
  rw [vfatFuseGetattr, if_neg notRoot, if_neg notHello]

/-- The buffers of all entries are C strings when there is place for a NUL in every name. -/
theorem readable_iff {records : List Memory} :
    (records.map readdirName).map cString = records.map (some ∘ stem) ↔
      ∀ record ∈ records, HasPlace record := by
  rw [List.map_map, List.map_inj_left]
  refine forall₂_congr fun record _ => ?_
  rw [Function.comp_apply, Function.comp_apply, cString_readdirName]
  by_cases place : HasPlace record
  · rw [if_pos place]
    exact iff_of_true rfl place
  · rw [if_neg place]
    exact iff_of_false (fun same => by cases same) place

/-- The list that `main` has left is the one that every listing goes through. -/
theorem readdir_reply {s s' : Server} {records : List Memory} {used fuel : Nat}
    {requests : List Request} (list : Segment s.nodes s.rootDirentriesList records none)
    (served : (serverMachine dev used).run s requests = .ok s') (enough : records.length < fuel) :
    reply dev fuel s' (.readdir rootPath) =
      .ok (.entries 0 ([0x2E, 0x00] :: [0x2E, 0x2E, 0x00] :: records.map readdirName)) := by
  have step : ∀ (s' : Server) (request : Request), Alike dev s s' →
      Meets ((serverMachine dev used).step s' request) (fun _ => True) (Alike dev s) :=
    fun _ _ alike => alike.step
  have alike := (Machine.run_keeps step requests s (.refl dev s)).of_ok served
  rw [alike.reply_eq, reply, serve, vfatFuseReaddir_eq, if_neg (not_not.mpr rfl),
    readdir_names list enough]
  rfl

/-- The entries are served when there is place for a NUL in every name. -/
theorem serves_iff {s : Server} {records : List Memory}
    (list : Segment s.nodes s.rootDirentriesList records none) :
    Serves dev s records ↔ ∀ record ∈ records, HasPlace record := by
  rw [← readable_iff]
  constructor
  · intro serves
    obtain ⟨names, replied, readable⟩ :=
      serves.readdir 0 [] s rfl (records.length + 1) (Nat.lt_succ_self _)
    have ran : (serverMachine dev 0).run s [] = .ok s := rfl
    have passed := replied.symm.trans (readdir_reply list ran (Nat.lt_succ_self _))
    cases passed
    exact (List.cons.inj (List.cons.inj readable).2).2
  · intro readable
    constructor
    case readdir =>
      intro used requests s' served fuel enough
      refine ⟨_, readdir_reply list served enough, ?_⟩
      rw [List.map_cons, List.map_cons, readable]
      rfl
    case getattr => exact fun record _ => vfatFuseGetattr_below

/-- **From the device to the listing.** When the root directory has an entry before its end mark,
no entry with a blank name is followed by another one, and there is place for a NUL in the eight
bytes of every name, `main` serves the entries of the root directory up to its end mark. -/
theorem served_listing (garbage : Nat → Node Memory) {last : Nat}
    (init : vfatInit dev boot unmounted = .ok f)
    (kept : ∀ turn byte, heap.freed turn byte = byte) (first : FirstEnd dev heap f last) :
    (∃ fuel s, serverMain (some dev) boot heap garbage fuel = .ok s ∧
      Segment s.nodes s.rootDirentriesList (listing dev heap f last) none ∧
        Serves dev s (listing dev heap f last)) ↔
      (∃ t < last, IsLive dev heap f t) ∧
        (∀ t u, t < u → u < last → IsLive dev heap f t → IsLive dev heap f u →
          ¬ IsBlank dev heap f t) ∧
        ∀ t < last, IsLive dev heap f t → HasPlace (slotRecord dev heap f t) := by
  have places : (∀ record ∈ listing dev heap f last, HasPlace record) ↔
      ∀ t < last, IsLive dev heap f t → HasPlace (slotRecord dev heap f t) := by
    constructor
    · intro listed t early live
      exact (hasPlace_blanksReplaced _).mp (listed _ (first.mem_listing.mpr ⟨t, early, live, rfl⟩))
    · intro slots record listed
      obtain ⟨t, early, live, rfl⟩ := first.mem_listing.mp listed
      exact (hasPlace_blanksReplaced _).mpr (slots t early live)
  rw [← and_assoc, ← listing_iff garbage kept first, ← places]
  constructor
  · rintro ⟨fuel, s, mounted, list, serves⟩
    refine ⟨?_, (serves_iff list).mp serves⟩
    simp only [serverMain, init] at mounted
    cases returned : Linked.vfatReadRootDirectory dev heap garbage fuel f with
    | none =>
        rw [returned] at mounted
        cases mounted
    | some outcome =>
        rw [returned] at mounted
        cases outcome with
        | error fault => cases mounted
        | ok found =>
            cases mounted
            exact ⟨fuel, found, returned, list⟩
  · rintro ⟨⟨fuel, list, returned, segment⟩, place⟩
    refine ⟨fuel, ⟨f, list.nodes, list.first, none⟩, ?_, segment, (serves_iff segment).mpr place⟩
    simp only [serverMain, init, returned]

end Listing

/-- What a mount computes does not depend on the state before. -/
theorem vfatInit_from {dev : Device} {boot : Memory} {f₀ f : Vfat}
    (init : vfatInit dev boot f₀ = .ok f) (f₁ : Vfat) : vfatInit dev boot f₁ =
      .ok { f with
        currentDirentry := f₁.currentDirentry
        currentClusterNumber := f₁.currentClusterNumber
        nextClusterNumber := f₁.nextClusterNumber } := by
  have geometry := Mounted.geometry ⟨boot, f₀, init⟩
  have fields := vfatInit_setGeometry init
  have sector : f.bootSector = bootSectorOf dev boot := congrArg Vfat.bootSector fields
  have accepted : (bootSectorOf dev boot).Accepted := by
    rw [← sector]
    refine ⟨geometry.bytsPerSec, geometry.secPerClus, ?_, geometry.sig⟩
    rw [← geometry.countOfClusters]
    exact geometry.fat32
  rw [vfatInit_accepted accepted f₁, fields]
  rfl

theorem served_sampleFiles : ∃ boot, vfatInit (sampleRoot sampleFiles) boot unmounted =
      .ok sampleVfat ∧
    ∃ fuel s, serverMain (some (sampleRoot sampleFiles)) boot keepingHeap (fun _ => ⟨none, none⟩)
        fuel = .ok s ∧
      Segment s.nodes s.rootDirentriesList
          (listing (sampleRoot sampleFiles) keepingHeap sampleVfat 3) none ∧
        Serves (sampleRoot sampleFiles) s
          (listing (sampleRoot sampleFiles) keepingHeap sampleVfat 3) := by
  obtain ⟨boot, f₀, mounted⟩ := sampleRoot_mounted sampleFiles
  have init : vfatInit (sampleRoot sampleFiles) boot unmounted = .ok sampleVfat :=
    vfatInit_from mounted unmounted
  refine ⟨boot, init, (served_listing (fun _ => ⟨none, none⟩) init (fun _ _ => rfl)
    sampleFiles_firstEnd).mpr ⟨⟨1, by decide, sampleFiles_isLive⟩, ?_, ?_⟩⟩
  · intro t u less early _ _ blank
    have named : ∀ t < 3, (sampleFiles.getD t []).getD 0 0 ≠ 0x20 := by decide
    apply named t (by omega)
    rw [← sampleRoot_record sampleFiles keepingHeap (by omega) (by decide)]
    exact blank 0 (by decide)
  · intro t early _
    have short : ∀ t < 3, (sampleFiles.getD t []).getD 7 0 = 0x20 := by decide
    refine .inr ?_
    rw [sampleRoot_record sampleFiles keepingHeap (by omega) (by decide)]
    exact short t early

end OsTasks.Fat
