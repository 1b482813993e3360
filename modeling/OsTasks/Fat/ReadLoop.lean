import OsTasks.Fat.Image

/-!
# The loop of a read

What the loop of `vfat_fuse_read` does for every device, every contents of the FAT and every
request.

`read_chunk_bounds` is about the `pread`s of the loop. Size and offset are changed in four ways,
in signed and unsigned types, but the offset stays below the size that is left (`Requested`), and
so every chunk is inside of its cluster and not longer than the request.

`read_ends_iff` says when the loop ends. The variable `last_round` is set when the rest of the
request is strictly less than a cluster. When it is exactly a cluster, nothing changes from
there on, and only the end of the chain ends the loop.
-/

set_option autoImplicit false

namespace OsTasks.Fat

open OsTasks.Lib

/-! ## Size and offset -/

/-- A size and an offset, as values of `size_t` and `off_t`, that pass the test at the beginning of
`vfat_fuse_read`. -/
structure Requested (size : Nat) (offset : Int) : Prop where
  size_lt : size < 2 ^ 64
  lower : -2 ^ 63 ≤ offset
  upper : offset < 2 ^ 63
  less : sizeT offset < size

namespace Requested

variable {B size : Nat} {offset : Int}

/-- A negative offset passes as a very large one, and so does the size. -/
theorem nonneg (requested : Requested size offset) (small : size ≤ 2 ^ 63) :
    ∃ o : Nat, offset = o ∧ o < size := by
  obtain ⟨-, lower, upper, less⟩ := requested
  rw [sizeT] at less
  exact ⟨offset.toNat, by omega, by omega⟩

theorem of_lt {o : Nat} (fits : size < 2 ^ 64) (small : o < 2 ^ 63) (less : o < size) :
    Requested size o := by
  have offset : sizeT o = o := sizeT_of_fits (by omega)
  exact ⟨fits, by omega, by omega, by omega⟩

end Requested

/-- What one turn makes of the size and the offset, whatever they are. -/
theorem plan_moves {B size : Nat} {offset : Int} (positive : 0 < B) (small : B < 2 ^ 31)
    (requested : Requested size offset) :
    (sizeT (size + offset) < B ∧ (plan B size offset).lastRound = true) ∨
    (sizeT (size + offset) = B ∧ (plan B size offset).lastRound = false ∧
      (plan B size offset).size = size ∧ (plan B size offset).offset = offset) ∨
    (B < sizeT (size + offset) ∧ B ≤ offset ∧ (plan B size offset).lastRound = false ∧
      (plan B size offset).size = size ∧ (plan B size offset).offset = offset - B) ∨
    (B < sizeT (size + offset) ∧ offset < B ∧ B < size ∧
      (plan B size offset).lastRound = false ∧ (plan B size offset).size = size - B ∧
        (plan B size offset).offset = 0) ∨
    (B < size + offset ∧ 0 ≤ offset ∧ offset < B ∧ size ≤ B ∧
      (plan B size offset).lastRound = false ∧
        ((plan B size offset).size : Int) = size + offset - B ∧
          (plan B size offset).offset = 0) := by
  have cluster : sizeT B = B := sizeT_of_fits (by omega)
  have fits := requested.size_lt
  rcases Nat.lt_trichotomy (sizeT (size + offset)) B with less | equal | more
  · left
    rw [plan, cluster, if_pos less.le]
    exact ⟨less, decide_eq_true less⟩
  · right; left
    rw [plan, cluster, if_pos equal.le]
    exact ⟨equal, decide_eq_false (by omega), rfl, rfl⟩
  · right; right
    rw [plan, cluster, if_neg (by omega)]
    by_cases skip : (B : Int) ≤ offset
    · left
      rw [if_pos skip]
      exact ⟨more, skip, rfl, rfl, rfl⟩
    · right
      rw [if_neg skip]
      by_cases long : B < size
      · left
        have rest : sizeT (size - B) = size - B := by
          rw [← Int.ofNat_sub long.le]
          exact sizeT_of_fits (by omega)
        rw [if_pos long]
        exact ⟨more, by omega, long, rfl, rest, rfl⟩
      · right
        obtain ⟨o, rfl, less⟩ := requested.nonneg (by omega)
        have sum : sizeT (size + o) = size + o := by
          rw [← Int.natCast_add]
          exact sizeT_of_fits (by omega)
        have toRead : int32 (B - o) = B - o := int32_of_fits (by omega) (by omega)
        have rest : sizeT (size - (B - o)) = size + o - B := by
          rw [sizeT]
          omega
        rw [if_neg long, toRead]
        refine ⟨by omega, by omega, by omega, by omega, rfl, ?_, rfl⟩
        dsimp only
        rw [rest]
        omega

/-- The offset stays below the size, and the size does not grow. -/
theorem Requested.plan {B size : Nat} {offset : Int} (positive : 0 < B) (small : B < 2 ^ 31)
    (requested : Requested size offset) :
    Requested (Fat.plan B size offset).size (Fat.plan B size offset).offset ∧
      (Fat.plan B size offset).size ≤ size := by
  obtain ⟨fits, lower, upper, less⟩ := requested
  have zero : ∀ left, 0 < left → left ≤ size → Requested left 0 := by
    intro left some most
    exact Requested.of_lt (by omega) (by decide) some
  rcases plan_moves positive small ⟨fits, lower, upper, less⟩ with
    ⟨last, -⟩ | ⟨-, -, size', offset'⟩ | ⟨-, skip, -, size', offset'⟩ |
      ⟨-, -, long, -, size', offset'⟩ | ⟨more, -, inside, -, -, size', offset'⟩
  · have cluster : sizeT B = B := sizeT_of_fits (by omega)
    rw [Fat.plan, cluster, if_pos last.le]
    exact ⟨⟨fits, lower, upper, less⟩, le_rfl⟩
  · rw [size', offset']
    exact ⟨⟨fits, lower, upper, less⟩, le_rfl⟩
  · rw [size', offset']
    rw [sizeT] at less
    refine ⟨⟨fits, by omega, by omega, ?_⟩, le_rfl⟩
    rw [sizeT]
    omega
  · rw [size', offset']
    exact ⟨zero _ (by omega) (by omega), by omega⟩
  · rw [offset']
    exact ⟨zero _ (by omega) (by omega), by omega⟩

/-! ## Chunks -/

/-- A chunk of a request that an `int` can hold is inside of its cluster. -/
theorem plan_chunk_bounds {B size : Nat} {offset toRead currentOffset : Int} (small : B < 2 ^ 31)
    (requested : Requested size offset) (fits : size < 2 ^ 31)
    (chunk : (plan B size offset).chunk = some (toRead, currentOffset)) :
    0 < toRead ∧ toRead ≤ size ∧ 0 ≤ currentOffset ∧ currentOffset + toRead ≤ B := by
  obtain ⟨o, rfl, less⟩ := requested.nonneg (by omega)
  rcases plan_cases small (by omega) less with ⟨whole, planned⟩ | ⟨-, skip, planned⟩ |
    ⟨-, inside, long, planned⟩ | ⟨straddles, inside, short, planned⟩
  · rw [planned] at chunk
    cases chunk
    omega
  · rw [planned] at chunk
    cases chunk
  · rw [planned] at chunk
    cases chunk
    omega
  · rw [planned] at chunk
    cases chunk
    omega

theorem int32_lt (x : Int) : int32 x < 2 ^ 31 := by
  rw [int32, Int.bmod_eq_emod]
  split <;> omega

/-- No chunk is longer than what is left of the request, whatever the request is: `to_read` is an
`int`. -/
theorem plan_chunk_le {B size : Nat} {offset toRead currentOffset : Int} (small : B < 2 ^ 31)
    (requested : Requested size offset)
    (chunk : (plan B size offset).chunk = some (toRead, currentOffset)) : toRead ≤ size := by
  by_cases fits : size < 2 ^ 31
  · exact (plan_chunk_bounds small requested fits chunk).2.1
  · have short : ∃ x, toRead = int32 x := by
      rw [plan] at chunk
      split at chunk
      · exact ⟨_, (Prod.mk.inj (Option.some.inj chunk)).1.symm⟩
      · split at chunk
        · cases chunk
        · split at chunk
          · exact ⟨_, (Prod.mk.inj (Option.some.inj chunk)).1.symm⟩
          · exact ⟨_, (Prod.mk.inj (Option.some.inj chunk)).1.symm⟩
    obtain ⟨x, rfl⟩ := short
    have bound := int32_lt x
    omega

section Chunks

variable {dev : Device} {f : Vfat} {r : Reading}

theorem clusterSize_fits (f : Vfat) : f.clusterSize < 2 ^ 31 := by
  have sector : f.bootSector.bytsPerSec.toNat < 65536 := f.bootSector.bytsPerSec.toNat_lt
  have clusters : f.bootSector.secPerClus.toNat < 256 := f.bootSector.secPerClus.toNat_lt
  calc f.clusterSize ≤ 65535 * 255 := Nat.mul_le_mul (by omega) (by omega)
    _ < 2 ^ 31 := by decide

/-- What is true in every turn of a read: the volume is the same one, size and offset are a
request, and the size has not grown. -/
structure InRequest (f : Vfat) (size : Nat) (r : Reading) : Prop where
  volume : SameVolume f r.f
  requested : Requested r.size r.offset
  most : r.size ≤ size

/-- The plan of a turn is the one for the size of a cluster of the volume. -/
theorem SameVolume.plan_eq (same : SameVolume f r.f) :
    plan (getNextClusterNumber dev r.f).2.bytesPerSector r.size r.offset =
      plan f.clusterSize r.size r.offset := by
  have volume : SameVolume f (getNextClusterNumber dev r.f).2 := sameVolume_getNext same
  rw [Vfat.bytesPerSector, volume.clusterSize]

theorem InRequest.again {size : Nat} (cluster : 0 < f.clusterSize) (inside : InRequest f size r)
    {next : Reading} (turn : readTurn dev r = .ok (.inl next)) : InRequest f size next := by
  obtain ⟨isNext, size', offset', -, -⟩ := readTurn_again turn
  rw [inside.volume.plan_eq] at size' offset'
  obtain ⟨requested, smaller⟩ := inside.requested.plan cluster (clusterSize_fits f)
  constructor
  case volume =>
    rw [isNext]
    exact sameVolume_getNext inside.volume
  case requested =>
    rw [size', offset']
    exact requested
  case most =>
    rw [size']
    exact smaller.trans inside.most

/-- The `pread` of a turn reads the chunk that the plan says. -/
theorem Reading.plan_of_pread (same : SameVolume f r.f) {call : Pread}
    (issued : r.pread dev = some call) :
    (plan f.clusterSize r.size r.offset).chunk = some (call.toRead, call.currentOffset) := by
  rw [← same.plan_eq]
  exact (Reading.pread_eq_some.mp issued).2.1

/-- The `pread` of a turn reads in the cluster that `get_next_cluster_number` goes to. -/
theorem Reading.dataStart_of_pread (same : SameVolume f r.f) {call : Pread}
    (issued : r.pread dev = some call) : call.dataStart = f.dataStart r.f.nextClusterNumber := by
  obtain ⟨⟨-, goesOn⟩, -, dataStart⟩ := Reading.pread_eq_some.mp issued
  rw [dataStart]
  rw [getNextClusterNumber] at goesOn ⊢
  dsimp only at goesOn ⊢
  split at goesOn
  · next cluster =>
      rw [if_pos cluster]
      exact (same.setClusters _ _).dataStart _
  · exact absurd rfl goesOn

/-- A turn that leaves the buffer does so with its `pread`. -/
theorem readTurn_fault {fault : ReadFault} (turn : readTurn dev r = .error fault) :
    ∃ call, r.pread dev = some call ∧
      storeBuf r.buf (dev.pread call.toRead call.address) = .error fault := by
  cases issued : r.pread dev with
  | none =>
      obtain ⟨next, -, left | left⟩ := readTurn_no_pread issued <;>
      · rw [left] at turn
        cases turn
  | some call =>
      obtain ⟨next, stores⟩ := readTurn_pread issued
      refine ⟨call, rfl, ?_⟩
      rw [stores] at turn
      cases stored : storeBuf r.buf (dev.pread call.toRead call.address) with
      | error reason =>
          cases reason
          cases fault
          rfl
      | ok buf =>
          rw [stored] at turn
          cases turn

theorem readTurn_length {next : Reading} (turn : readTurn dev r = .ok (.inl next)) :
    next.buf.length = r.buf.length := by
  obtain ⟨-, -, -, -, ⟨-, unchanged⟩ | ⟨call, -, stored⟩⟩ := readTurn_again turn
  · rw [unchanged]
  · exact (storeBuf_drop le_rfl stored).2

/-- A turn does not leave a buffer that has room for the request. -/
theorem InRequest.no_overrun {size : Nat} (inside : InRequest f size r)
    (room : size ≤ r.buf.length) (fault : ReadFault) : readTurn dev r ≠ .error fault := by
  intro turn
  obtain ⟨call, issued, overrun⟩ := readTurn_fault turn
  have planned := Reading.plan_of_pread inside.volume issued
  have short := plan_chunk_le (clusterSize_fits f) inside.requested planned
  have read := @pread_length_le dev call.toRead call.address
  have most := inside.most
  rw [storeBuf, if_pos (by omega)] at overrun
  cases overrun

end Chunks

/-- The variables of `vfat_fuse_read` when its loop starts. -/
def Reading.start (dev : Device) (f : Vfat) (buf : List UInt8) (size : Nat) (offset : Int) :
    Reading :=
  ⟨f.loadDirentry dev, buf, size, offset, false⟩

/-- A `pread` of at least one byte and at most `size`, which does not leave the cluster. -/
structure Pread.Within (call : Pread) (f : Vfat) (size : Nat) (cluster : UInt32) : Prop where
  nonempty : 0 < call.toRead
  inRequest : call.toRead ≤ size
  nonneg : 0 ≤ call.currentOffset
  inCluster : call.currentOffset + call.toRead ≤ f.clusterSize
  dataStart : call.dataStart = f.dataStart cluster

/-- A turn of the loop of `vfat_fuse_read` starts with these variables. -/
def ReadVisits (dev : Device) (f : Vfat) (buf : List UInt8) (size : Nat) (offset : Int)
    (r : Reading) : Prop :=
  ¬ size ≤ sizeT offset ∧ Visits (readTurn dev) (Reading.start dev f buf size offset) r

section Read

variable {dev : Device} {f : Vfat} {buf : List UInt8} {size : Nat} {offset : Int}

theorem InRequest.start (dev : Device) (f : Vfat) (buf : List UInt8)
    (requested : Requested size offset) : InRequest f size (Reading.start dev f buf size offset) :=
  ⟨sameVolume_loadDirentry, requested, le_rfl⟩

theorem vfatFuseRead_loop (fuel : Nat) (starts : ¬ size ≤ sizeT offset) :
    vfatFuseRead dev fuel f buf size offset =
      (loop (readTurn dev) fuel (Reading.start dev f buf size offset)).map fun result =>
        result.map fun r => (int32 size, r.buf, r.f) := by
  rw [vfatFuseRead]
  exact if_neg starts

/-- No read leaves a buffer that has room for the request. -/
theorem vfatFuseRead_no_overrun (cluster : 0 < f.clusterSize) (requested : Requested size offset)
    (room : size ≤ buf.length) (fuel : Nat) (fault : ReadFault) :
    loop (readTurn dev) fuel (Reading.start dev f buf size offset) ≠ some (.error fault) := by
  refine loop_no_fault (fun r => InRequest f size r ∧ size ≤ r.buf.length) ?_ ?_
    ⟨InRequest.start dev f buf requested, room⟩ fault
  · rintro r next ⟨inside, room⟩ turn
    refine ⟨inside.again cluster turn, ?_⟩
    rw [readTurn_length turn]
    exact room
  · rintro r reason ⟨inside, room⟩
    exact inside.no_overrun room reason

/-- **Chunks.** Every turn of the loop issues at most one `pread`, into the buffer. It reads a part
of the current cluster that is not empty, and not more than the request; so the buffer is never
left. -/
theorem read_chunk_bounds (dev : Device) (f : Vfat) (buf : List UInt8) (size : Nat) (offset : Int)
    (cluster : 0 < f.clusterSize) (positive : 1 ≤ size) (fits : size ≤ 2 ^ 31 - 1)
    (lower : -2 ^ 63 ≤ offset) (upper : offset < 2 ^ 63) :
    (∀ r, ReadVisits dev f buf size offset r →
      (∀ call, r.pread dev = some call →
        call.Within f size r.f.nextClusterNumber ∧
          ∃ next : Reading, readTurn dev r =
            (storeBuf r.buf (dev.pread call.toRead call.address)).map
              fun buf => .inl { next with buf := buf }) ∧
        (r.pread dev = none → ∃ next : Reading, next.buf = r.buf ∧
          (readTurn dev r = .ok (.inl next) ∨ readTurn dev r = .ok (.inr next)))) ∧
      (size ≤ buf.length → ∀ fuel fault,
        vfatFuseRead dev fuel f buf size offset ≠ some (.error fault)) := by
  constructor
  · rintro r ⟨starts, visits⟩
    refine ⟨fun call issued => ⟨?_, readTurn_pread issued⟩, readTurn_no_pread⟩
    have requested : Requested size offset := ⟨by omega, lower, upper, by omega⟩
    have inside : InRequest f size r :=
      visits.keeps (InRequest.start dev f buf requested)
        fun _ _ inside turn => inside.again cluster turn
    have most := inside.most
    have planned := Reading.plan_of_pread inside.volume issued
    obtain ⟨nonempty, inRequest, nonneg, inCluster⟩ :=
      plan_chunk_bounds (clusterSize_fits f) inside.requested (by omega) planned
    exact ⟨nonempty, by omega, nonneg, inCluster, Reading.dataStart_of_pread inside.volume issued⟩
  · intro room fuel fault
    by_cases starts : size ≤ sizeT offset
    · rw [vfatFuseRead, if_pos starts]
      nofun
    · have requested : Requested size offset := ⟨by omega, lower, upper, by omega⟩
      have sound := @vfatFuseRead_no_overrun dev f buf size offset cluster requested room fuel
      rw [vfatFuseRead_loop fuel starts]
      intro faulty
      obtain ⟨result, left, mapped⟩ := Option.map_eq_some_iff.mp faulty
      cases result with
      | error reason => exact sound reason left
      | ok final => cases mapped

end Read

/-- A request for 600 bytes at offset 10 starts with the last 502 bytes of the cluster 3. -/
theorem read_chunk_bounds_sample :
    ReadVisits sampleDevice sampleVfat (List.replicate 600 0) 600 10
        (Reading.start sampleDevice sampleVfat (List.replicate 600 0) 600 10) ∧
      (Reading.start sampleDevice sampleVfat (List.replicate 600 0) 600 10).pread sampleDevice =
        some ⟨502, 10, sampleVfat.dataStart 3⟩ ∧
      ∀ r, ReadVisits sampleDevice sampleVfat (List.replicate 600 0) 600 10 r →
        ∀ call, r.pread sampleDevice = some call →
          call.Within sampleVfat 600 r.f.nextClusterNumber := by
  have bounds := read_chunk_bounds sampleDevice sampleVfat (List.replicate 600 0) 600 10
    (by decide) (by decide) (by decide) (by decide) (by decide)
  refine ⟨⟨by decide, .start⟩, by decide +kernel, ?_⟩
  intro r visits call issued
  exact ((bounds.1 r visits).1 call issued).1

/-! ## The end of the loop -/

/-- The number that `get_next_cluster_number` finds after a cluster. -/
def Vfat.successor (f : Vfat) (dev : Device) (n : UInt32) : UInt32 :=
  load32 (fill (bytes32 n) (dev.pread 4 (f.clusterOffset n))) 0 &&& 0x0FFFFFFF

/-- The links of the FAT lead from a number to the end of a chain. -/
def Vfat.ChainEnds (f : Vfat) (dev : Device) (n : UInt32) : Prop :=
  ∃ steps, EndOfChain ((f.successor dev)^[steps] n)

/-- The first cluster of the file that is read. -/
def Vfat.firstCluster (f : Vfat) (dev : Device) : UInt32 := (f.loadDirentry dev).nextClusterNumber

/-- A request that comes to a rest of exactly one cluster: its size and its offset together are
one cluster, or they are more and the size is a multiple of a cluster. When their sum overflows
a `size_t`, what is left of the sum has to be the multiple. -/
def Stalls (B size : Nat) (offset : Int) : Prop :=
  sizeT (size + offset) = B ∨
    (B < sizeT (size + offset) ∧ B < size ∧
      B ∣ if size + offset < 2 ^ 64 then size else sizeT (size + offset))

theorem dvd_iff_rest {B x : Nat} (more : B < x) : B ∣ x ↔ x - B = B ∨ (B < x - B ∧ B ∣ x - B) := by
  have less : B ∣ x - B ↔ B ∣ x := Nat.dvd_sub_self_right.trans (by simp [Nat.not_le.mpr more])
  constructor
  · intro multiple
    have rest := less.mpr multiple
    have most := Nat.le_of_dvd (by omega) rest
    rcases Nat.eq_or_lt_of_le most with equal | more
    · exact .inl equal.symm
    · exact .inr ⟨more, rest⟩
  · rintro (equal | ⟨-, rest⟩)
    · rw [← less, equal]
    · exact less.mp rest

section Stalling

variable {B size : Nat} {offset : Int}

/-- A request of less than a cluster does not stall. -/
theorem not_stalls_of_lt (less : sizeT (size + offset) < B) : ¬ Stalls B size offset := by
  rintro (equal | ⟨more, -⟩) <;> omega

/-- A request at the beginning of a cluster stalls when it is a multiple of a cluster. -/
theorem stalls_zero_iff (fits : size < 2 ^ 64) :
    Stalls B size 0 ↔ size = B ∨ (B < size ∧ B ∣ size) := by
  have sum : sizeT (size + 0) = size := by
    rw [Int.add_zero]
    exact sizeT_of_fits fits
  have below : (size : Int) + 0 < 2 ^ 64 := by omega
  rw [Stalls, sum, if_pos below]
  constructor
  · rintro (equal | ⟨more, -, multiple⟩)
    · exact .inl equal
    · exact .inr ⟨more, multiple⟩
  · rintro (equal | ⟨more, multiple⟩)
    · exact .inl equal
    · exact .inr ⟨more, more, multiple⟩

/-- Passing over a cluster does not change whether the request stalls. -/
theorem stalls_skip (requested : Requested size offset) (more : B < sizeT (size + offset))
    (skip : (B : Int) ≤ offset) : Stalls B size (offset - B) ↔ Stalls B size offset := by
  obtain ⟨fits, lower, upper, less⟩ := requested
  rw [sizeT] at less
  rw [Stalls, Stalls]
  by_cases below : size + offset < 2 ^ 64
  · -- the sum does not overflow: the size decides, and it does not change
    have sum : (sizeT (size + offset) : Int) = size + offset := by
      rw [sizeT]
      omega
    have sum' : (sizeT (size + (offset - B)) : Int) = size + offset - B := by
      rw [sizeT]
      omega
    have below' : size + (offset - B) < 2 ^ 64 := by omega
    rw [if_pos below, if_pos below']
    constructor
    · rintro (equal | ⟨-, large, multiple⟩)
      · omega
      · exact .inr ⟨more, large, multiple⟩
    · rintro (equal | ⟨-, large, multiple⟩)
      · omega
      · exact .inr ⟨by omega, large, multiple⟩
  · have sum' : sizeT (size + (offset - B)) = sizeT (size + offset) - B := by
      rw [sizeT] at more ⊢
      rw [sizeT]
      omega
    have above : ¬ size + (offset - B) < 2 ^ 64 := by
      rw [sizeT] at more
      omega
    have large : B < size := by omega
    rw [if_neg below, if_neg above, sum']
    constructor
    · intro stalls
      refine .inr ⟨more, large, (dvd_iff_rest more).mpr ?_⟩
      rcases stalls with equal | ⟨rest, -, multiple⟩
      · exact .inl equal
      · exact .inr ⟨rest, multiple⟩
    · rintro (equal | ⟨-, -, multiple⟩)
      · omega
      · rcases (dvd_iff_rest more).mp multiple with equal | ⟨rest, left⟩
        · exact .inl equal
        · exact .inr ⟨rest, large, left⟩

/-- Reading the rest of a cluster does not change whether the request stalls. -/
theorem stalls_read (requested : Requested size offset) (more : B < sizeT (size + offset))
    (inside : offset < B) (long : B < size) : Stalls B (size - B) 0 ↔ Stalls B size offset := by
  obtain ⟨fits, lower, upper, less⟩ := requested
  have below : size + offset < 2 ^ 64 := by
    rw [sizeT] at more
    omega
  rw [stalls_zero_iff (by omega), ← dvd_iff_rest long, Stalls, if_pos below]
  constructor
  · intro multiple
    exact .inr ⟨more, long, multiple⟩
  · rintro (equal | ⟨-, -, multiple⟩)
    · omega
    · exact multiple

/-- A turn is the last one, or the request stalls when it did before, and if it does not, then
there is less of it. -/
theorem stalls_plan (positive : 0 < B) (small : B < 2 ^ 31) (requested : Requested size offset) :
    ((plan B size offset).lastRound = true ∧ ¬ Stalls B size offset) ∨
    ((plan B size offset).lastRound = false ∧
      (Stalls B (plan B size offset).size (plan B size offset).offset ↔ Stalls B size offset) ∧
        (¬ Stalls B size offset → (plan B size offset).size + (plan B size offset).offset.toNat <
          size + offset.toNat)) := by
  rcases plan_moves positive small requested with
    ⟨less, last⟩ | ⟨equal, goesOn, size', offset'⟩ | ⟨more, skip, goesOn, size', offset'⟩ |
      ⟨more, inside, long, goesOn, size', offset'⟩ |
        ⟨more, nonneg, inside, short, goesOn, size', offset'⟩
  · exact .inl ⟨last, not_stalls_of_lt less⟩
  · rw [size', offset']
    exact .inr ⟨goesOn, Iff.rfl, fun moves => absurd (.inl equal) moves⟩
  · rw [size', offset']
    exact .inr ⟨goesOn, stalls_skip requested more skip, fun _ => by omega⟩
  · rw [size', offset']
    exact .inr ⟨goesOn, stalls_read requested more inside long, fun _ => by omega⟩
  · -- less than a cluster is left, and so the next turn is the last one
    have fits : (plan B size offset).size < 2 ^ 64 := by omega
    have moves : ¬ Stalls B size offset := by
      rintro (equal | ⟨-, long, -⟩)
      · rw [sizeT] at equal
        omega
      · omega
    rw [offset', stalls_zero_iff fits]
    refine .inr ⟨goesOn, ⟨fun stalls => ?_, fun stalls => absurd stalls moves⟩, fun _ => by omega⟩
    rcases stalls with equal | ⟨long, -⟩ <;> omega

end Stalling

section Ending

variable {dev : Device} {f : Vfat} {r next : Reading} {size : Nat}

theorem getNextClusterNumber_successor {g : Vfat} (same : SameVolume f g)
    (goesOn : ¬ EndOfChain g.nextClusterNumber) : getNextClusterNumber dev g =
      (0, g.setClusters g.nextClusterNumber (f.successor dev g.nextClusterNumber)) := by
  obtain ⟨notZero, notEoc⟩ := not_or.mp goesOn
  have positive : 0 < g.nextClusterNumber := UInt32.pos_iff_ne_zero.mpr notZero
  rw [getNextClusterNumber, if_pos ⟨positive, by simp [notEoc]⟩, same.clusterOffset]
  rfl

/-- The loop is left in the last round or at the end of the chain only. -/
theorem readTurn_left {final : Reading} (turn : readTurn dev r = .ok (.inr final)) :
    r.lastRound = true ∨ EndOfChain r.f.nextClusterNumber := by
  by_contra goesOn
  obtain ⟨notLast, goesOn⟩ := not_or.mp goesOn
  have same : SameVolume r.f r.f := ⟨rfl, rfl⟩
  rw [readTurn, if_neg notLast, getNextClusterNumber_successor same goesOn] at turn
  dsimp only at turn
  rw [if_neg (by decide)] at turn
  split at turn
  · cases turn
  · generalize storeBuf r.buf _ = stored at turn
    cases stored <;> cases turn

theorem readTurn_last (last : r.lastRound = true) : readTurn dev r = .ok (.inr r) := by
  rw [readTurn, if_pos last]

theorem readTurn_end (ends : EndOfChain r.f.nextClusterNumber) :
    ∃ final, readTurn dev r = .ok (.inr final) := by
  by_cases last : r.lastRound = true
  · exact ⟨r, readTurn_last last⟩
  · rw [readTurn, if_neg last, getNextClusterNumber_end ends]
    exact ⟨_, rfl⟩

/-- What is true in every turn of a read into a buffer with room for the request. -/
structure InBuffer (f : Vfat) (size : Nat) (r : Reading) : Prop extends InRequest f size r where
  room : size ≤ r.buf.length

/-- A turn that is neither the last one nor at the end of the chain goes on, with the next number
and with what the plan leaves. -/
theorem InBuffer.goesOn (cluster : 0 < f.clusterSize) (inside : InBuffer f size r)
    (notLast : r.lastRound = false) (goesOn : ¬ EndOfChain r.f.nextClusterNumber) :
    ∃ next, readTurn dev r = .ok (.inl next) ∧ InBuffer f size next ∧
      next.f.nextClusterNumber = f.successor dev r.f.nextClusterNumber ∧
        next.size = (plan f.clusterSize r.size r.offset).size ∧
          next.offset = (plan f.clusterSize r.size r.offset).offset ∧
            next.lastRound = (plan f.clusterSize r.size r.offset).lastRound := by
  cases turn : readTurn dev r with
  | error fault => exact absurd turn (inside.toInRequest.no_overrun inside.room fault)
  | ok outcome =>
      cases outcome with
      | inr final =>
          rcases readTurn_left turn with last | ends
          · rw [last] at notLast
            cases notLast
          · exact absurd ends goesOn
      | inl next =>
          obtain ⟨isNext, size', offset', lastRound', -⟩ := readTurn_again turn
          rw [inside.volume.plan_eq] at size' offset' lastRound'
          have room : size ≤ next.buf.length := by
            rw [readTurn_length turn]
            exact inside.room
          refine ⟨next, rfl, ⟨inside.toInRequest.again cluster turn, room⟩, ?_, size', offset',
            lastRound'⟩
          rw [isNext, getNextClusterNumber_successor inside.volume goesOn]
          rfl

/-- A chain that ends ends the loop. -/
theorem loop_ends_of_chain (cluster : 0 < f.clusterSize) (inside : InBuffer f size r)
    (ends : f.ChainEnds dev r.f.nextClusterNumber) :
    ∃ fuel result, loop (readTurn dev) fuel r = some (.ok result) := by
  obtain ⟨steps, ends⟩ := ends
  refine loop_ends (fun steps r => InBuffer f size r ∧
    EndOfChain ((f.successor dev)^[steps] r.f.nextClusterNumber)) ?_ ⟨inside, ends⟩
  rintro steps r ⟨inside, ends⟩
  by_cases now : EndOfChain r.f.nextClusterNumber
  · exact .inl (readTurn_end now)
  · cases last : r.lastRound with
    | true => exact .inl ⟨r, readTurn_last last⟩
    | false =>
        obtain ⟨next, turn, inside', number, -⟩ := inside.goesOn cluster last now
        cases steps with
        | zero => exact absurd ends now
        | succ steps =>
            refine .inr ⟨next, turn, steps, Nat.lt_succ_self steps, inside', ?_⟩
            rw [number, ← Function.iterate_succ_apply]
            exact ends

/-- A request that does not stall ends the loop. -/
theorem loop_ends_of_moves (cluster : 0 < f.clusterSize) (inside : InBuffer f size r)
    (moves : ¬ Stalls f.clusterSize r.size r.offset) :
    ∃ fuel result, loop (readTurn dev) fuel r = some (.ok result) := by
  refine loop_ends (fun n r => InBuffer f size r ∧ (r.lastRound = true ∨
    (¬ Stalls f.clusterSize r.size r.offset ∧ r.size + r.offset.toNat < n))) ?_
    ⟨inside, .inr ⟨moves, Nat.lt_succ_self _⟩⟩
  rintro n r ⟨inside, rank⟩
  cases last : r.lastRound with
  | true => exact .inl ⟨r, readTurn_last last⟩
  | false =>
      rw [last] at rank
      obtain ⟨moves, measure⟩ := rank.resolve_left nofun
      by_cases now : EndOfChain r.f.nextClusterNumber
      · exact .inl (readTurn_end now)
      · obtain ⟨next, turn, inside', -, size', offset', last'⟩ := inside.goesOn cluster last now
        rcases stalls_plan cluster (clusterSize_fits f) inside.requested with
          ⟨final, -⟩ | ⟨-, same, less⟩
        · exact .inr ⟨next, turn, 0, by omega, inside', .inl (last'.trans final)⟩
        · rw [← size', ← offset'] at same less
          exact .inr ⟨next, turn, _, measure, inside', .inr ⟨fun stalls => moves (same.mp stalls),
            less moves⟩⟩

/-- A request that stalls on a chain without end goes round for ever. -/
theorem loop_endless_of_stalls (cluster : 0 < f.clusterSize) (inside : InBuffer f size r)
    (notLast : r.lastRound = false) (stalls : Stalls f.clusterSize r.size r.offset)
    (endless : ¬ f.ChainEnds dev r.f.nextClusterNumber) (fuel : Nat) :
    loop (readTurn dev) fuel r = none := by
  refine loop_endless (fun r => InBuffer f size r ∧ r.lastRound = false ∧
    Stalls f.clusterSize r.size r.offset ∧ ¬ f.ChainEnds dev r.f.nextClusterNumber) ?_
    ⟨inside, notLast, stalls, endless⟩ fuel
  rintro r ⟨inside, notLast, stalls, endless⟩
  have now : ¬ EndOfChain r.f.nextClusterNumber := fun ends => endless ⟨0, ends⟩
  obtain ⟨next, turn, inside', number, size', offset', last'⟩ := inside.goesOn cluster notLast now
  rcases stalls_plan cluster (clusterSize_fits f) inside.requested with
    ⟨-, moves⟩ | ⟨goesOn, same, -⟩
  · exact absurd stalls moves
  · rw [← size', ← offset'] at same
    refine ⟨next, turn, inside', last'.trans goesOn, same.mpr stalls, ?_⟩
    rintro ⟨steps, ends⟩
    rw [number, ← Function.iterate_succ_apply] at ends
    exact endless ⟨steps + 1, ends⟩

end Ending

/-- **The end of a read.** The loop of `vfat_fuse_read` ends when and only when the chain of the
file has an end or the request does not stall. -/
theorem read_ends_iff (dev : Device) (f : Vfat) (buf : List UInt8) (size : Nat) (offset : Int)
    (mounted : Mounted dev f) (room : size ≤ buf.length) (fits : size < 2 ^ 64)
    (lower : -2 ^ 63 ≤ offset) (upper : offset < 2 ^ 63) :
    (∃ fuel result, vfatFuseRead dev fuel f buf size offset = some (.ok result)) ↔
      size ≤ sizeT offset ∨ f.ChainEnds dev (f.firstCluster dev) ∨
        ¬ Stalls f.clusterSize size offset := by
  have cluster := mounted.geometry.clusterSize_pos
  by_cases returns : size ≤ sizeT offset
  · have returned : vfatFuseRead dev 0 f buf size offset = some (.ok (-1, buf, f)) := by
      rw [vfatFuseRead]
      exact if_pos returns
    exact ⟨fun _ => .inl returns, fun _ => ⟨0, _, returned⟩⟩
  · have inside : InBuffer f size (Reading.start dev f buf size offset) :=
      ⟨InRequest.start dev f buf ⟨fits, lower, upper, by omega⟩, room⟩
    constructor
    · rintro ⟨fuel, result, ended⟩
      rw [vfatFuseRead_loop fuel returns] at ended
      refine .inr (or_iff_not_imp_left.mpr fun endless stalls => ?_)
      rw [loop_endless_of_stalls cluster inside rfl stalls endless] at ended
      cases ended
    · intro condition
      have ended : ∃ fuel result, loop (readTurn dev) fuel (Reading.start dev f buf size offset) =
          some (.ok result) := by
        rcases condition with returned | ends | moves
        · exact absurd returned returns
        · exact loop_ends_of_chain cluster inside ends
        · exact loop_ends_of_moves cluster inside moves
      obtain ⟨fuel, result, left⟩ := ended
      refine ⟨fuel, (int32 size, result.buf, result.f), ?_⟩
      rw [vfatFuseRead_loop fuel returns, left]
      rfl

/-- A request for 600 bytes of a chain of two clusters. -/
theorem read_ends_sample : Mounted sampleDevice sampleVfat ∧ ∃ fuel result,
    vfatFuseRead sampleDevice fuel sampleVfat (List.replicate 600 0) 600 0 = some (.ok result) := by
  have moves : ¬ Stalls sampleVfat.clusterSize 600 0 := by
    rw [stalls_zero_iff (by decide)]
    decide
  exact ⟨sampleVfat_mounted, (read_ends_iff sampleDevice sampleVfat (List.replicate 600 0) 600 0
    sampleVfat_mounted List.length_replicate.ge (by decide) (by decide) (by decide)).mpr
      (.inr (.inr moves))⟩

/-- The volume of the small image, where the entry of cluster 3 in the FAT is 3. -/
def cyclicDevice : Device where
  size := sampleDevice.size
  byte p := if p = 16396 then 3 else sampleDevice.byte p

/-- A request for exactly one cluster of a cyclic chain is never answered. -/
theorem cyclic_read_endless : Mounted cyclicDevice sampleVfat ∧ ∀ fuel,
    vfatFuseRead cyclicDevice fuel sampleVfat (List.replicate 512 0) 512 0 = none := by
  have mounted : Mounted cyclicDevice sampleVfat :=
    sampleVfat_mounted_of_boot (by decide) fun i less => if_neg (by omega)
  have first : sampleVfat.firstCluster cyclicDevice = 3 := by decide +kernel
  have successor : sampleVfat.successor cyclicDevice 3 = 3 := rfl
  have endless : ¬ sampleVfat.ChainEnds cyclicDevice (sampleVfat.firstCluster cyclicDevice) := by
    rintro ⟨steps, ends⟩
    rw [first, Function.iterate_fixed successor] at ends
    exact absurd ends (by unfold EndOfChain; decide)
  have stalls : Stalls sampleVfat.clusterSize 512 0 := (stalls_zero_iff (by decide)).mpr (by decide)
  have requested : Requested 512 0 := Requested.of_lt (by decide) (by decide) (by decide)
  have inside : InBuffer sampleVfat 512
      (Reading.start cyclicDevice sampleVfat (List.replicate 512 0) 512 0) :=
    ⟨InRequest.start cyclicDevice sampleVfat (List.replicate 512 0) requested,
      List.length_replicate.ge⟩
  refine ⟨mounted, fun fuel => ?_⟩
  rw [vfatFuseRead_loop fuel (by decide),
    loop_endless_of_stalls (by decide) inside rfl stalls endless]
  rfl

end OsTasks.Fat
