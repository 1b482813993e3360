import OsTasks.Fat.Image

/-!
# The contract of a read

A read of `size` bytes at `offset` should return the number of bytes that the file has there, at
most `size`, and put them into the buffer (`Image.ReadContract`).

`vfat_fuse_read` meets this contract only in a corner (`Image.readContract_iff`): the read starts
at 0, lies within the file, and is not larger than a cluster. It returns `size` whatever the size
of the file is, gives up when the offset is not less than the size of the request, takes the
offset off the number of bytes it reads, and stores every chunk at the beginning of the buffer.
A request for exactly one cluster does not end after the first cluster and shows the last one.
-/

set_option autoImplicit false

namespace OsTasks.Fat

open OsTasks.Lib

/-! ## Bytes that are not touched -/

section Untouched

variable {dev : Device} {f : Vfat}

/-- The buffer of the caller is the same from `bound` on. `Inv` is about what is left to read. -/
structure Untouched (f : Vfat) (Inv : Nat → Nat → Prop) (bound : Nat) (buf : List UInt8)
    (r : Reading) : Prop where
  volume : SameVolume f r.f
  left : ∃ offset : Nat, r.offset = offset ∧ Inv r.size offset
  kept : r.buf.drop bound = buf.drop bound
  length : r.buf.length = buf.length

/-- When no chunk is longer than `bound`, the buffer keeps its bytes from there on. -/
theorem loop_untouched {bound : Nat} {Inv : Nat → Nat → Prop}
    (keeps : ∀ size offset : Nat, Inv size offset →
      ∃ offset' : Nat, (plan f.clusterSize size offset).offset = offset' ∧
        Inv (plan f.clusterSize size offset).size offset' ∧
          ∀ chunk ∈ (plan f.clusterSize size offset).chunk, chunk.1 ≤ bound)
    {size offset fuel : Nat} {buf : List UInt8} {r : Reading} (holds : Inv size offset)
    {g : Vfat} (same : SameVolume f g)
    (left : loop (readTurn dev) fuel ⟨g, buf, size, offset, false⟩ = some (.ok r)) :
    r.buf.drop bound = buf.drop bound ∧ r.buf.length = buf.length := by
  refine loop_keeps (Untouched f Inv bound buf)
    (fun r => r.buf.drop bound = buf.drop bound ∧ r.buf.length = buf.length) ?_ ?_
    ⟨same, ⟨offset, rfl, holds⟩, rfl, rfl⟩ left
  · rintro r next ⟨same, ⟨o, offset, inv⟩, kept, length⟩ turn
    have volume : SameVolume f (getNextClusterNumber dev r.f).2 := sameVolume_getNext same
    obtain ⟨isNext, size', offset', -, buffer⟩ := readTurn_again turn
    rw [Vfat.bytesPerSector, volume.clusterSize, offset] at size' offset'
    obtain ⟨o', planned, inv', short⟩ := keeps r.size o inv
    have stored : next.buf.drop bound = r.buf.drop bound ∧ next.buf.length = r.buf.length := by
      rcases buffer with ⟨-, unchanged⟩ | ⟨call, issued, stored⟩
      · rw [unchanged]
        exact ⟨rfl, rfl⟩
      · refine storeBuf_drop ?_ stored
        have most := @pread_length_le dev call.toRead call.address
        have chunk := (Reading.pread_eq_some.mp issued).2.1
        rw [Vfat.bytesPerSector, volume.clusterSize, offset] at chunk
        have bounded : call.toRead ≤ bound := short _ chunk
        omega
    exact ⟨isNext ▸ volume, ⟨o', offset'.trans planned, size' ▸ inv'⟩, stored.1.trans kept,
      stored.2.trans length⟩
  · rintro r final ⟨-, -, kept, length⟩ turn
    rw [readTurn_done turn]
    exact ⟨kept, length⟩

/-- No chunk is longer than a cluster. -/
theorem plan_within_cluster {B size offset : Nat} (small : B < 2 ^ 31)
    (inv : size < 2 ^ 32 ∧ offset < size) :
    ∃ offset' : Nat, (plan B size offset).offset = offset' ∧
      ((plan B size offset).size < 2 ^ 32 ∧ offset' < (plan B size offset).size) ∧
        ∀ chunk ∈ (plan B size offset).chunk, chunk.1 ≤ B := by
  obtain ⟨fits, less⟩ := inv
  obtain ⟨whole, planned⟩ | ⟨-, skip, planned⟩ | ⟨-, inside, long, planned⟩ |
    ⟨straddles, inside, -, planned⟩ := plan_cases small fits less
  · rw [planned]
    refine ⟨offset, rfl, ⟨fits, less⟩, fun chunk isChunk => ?_⟩
    cases isChunk
    omega
  · rw [planned]
    exact ⟨offset - B, rfl, ⟨fits, by dsimp only; omega⟩, nofun⟩
  · rw [planned]
    refine ⟨0, rfl, ⟨by dsimp only; omega, by dsimp only; omega⟩, fun chunk isChunk => ?_⟩
    cases isChunk
    omega
  · rw [planned]
    refine ⟨0, rfl, ⟨by dsimp only; omega, by dsimp only; omega⟩, fun chunk isChunk => ?_⟩
    cases isChunk
    omega

/-- With an offset, no chunk of a request for at most one cluster is as long as the request. -/
theorem plan_below_request {B request size offset : Nat} (small : B < 2 ^ 31) (within : request ≤ B)
    (inv : offset < size ∧ size ≤ request ∧ (offset = 0 → size < request)) :
    ∃ offset' : Nat, (plan B size offset).offset = offset' ∧
      (offset' < (plan B size offset).size ∧ (plan B size offset).size ≤ request ∧
        (offset' = 0 → (plan B size offset).size < request)) ∧
          ∀ chunk ∈ (plan B size offset).chunk, chunk.1 ≤ (request - 1 : Nat) := by
  obtain ⟨less, most, partly⟩ := inv
  obtain ⟨whole, planned⟩ | ⟨-, skip, planned⟩ | ⟨-, inside, long, planned⟩ |
    ⟨straddles, inside, -, planned⟩ := plan_cases small (by omega) less
  · rw [planned]
    refine ⟨offset, rfl, ⟨less, most, partly⟩, fun chunk isChunk => ?_⟩
    cases isChunk
    dsimp only
    omega
  · omega
  · omega
  · rw [planned]
    refine ⟨0, rfl, ⟨by dsimp only; omega, by dsimp only; omega, fun _ => by dsimp only; omega⟩,
      fun chunk isChunk => ?_⟩
    cases isChunk
    dsimp only
    omega

/-- A procedure that leaves the end of every buffer alone cannot fill it with given bytes. -/
theorem not_filled {size bound : Nat} (short : bound < size) {wanted : List UInt8}
    {Fills : List UInt8 → List UInt8 → Prop}
    (untouched : ∀ buf buf', Fills buf buf' →
      buf'.drop bound = buf.drop bound ∧ buf'.length = buf.length) :
    ¬ ∀ buf : List UInt8, buf.length = size → ∃ buf', Fills buf buf' ∧ buf'.take size = wanted := by
  intro filled
  have rest : ∀ byte : UInt8, wanted.drop bound = List.replicate (size - bound) byte := by
    intro byte
    obtain ⟨buf', fills, rfl⟩ := filled (List.replicate size byte) List.length_replicate
    obtain ⟨kept, length⟩ := untouched _ _ fills
    rw [List.length_replicate] at length
    rw [List.take_of_length_le length.le, kept, List.drop_replicate]
  have same : List.replicate (size - bound) (0 : UInt8) = List.replicate (size - bound) 1 :=
    (rest 0).symm.trans (rest 1)
  obtain ⟨-, none | equal⟩ := List.replicate_inj.mp same
  · omega
  · exact absurd equal (by decide)

end Untouched

/-! ## What is shown -/

section Shown

variable {dev : Device} {f g : Vfat}

/-- A turn of a request at offset 0 that is not larger than a cluster. -/
theorem readTurn_cluster (volume : Volume dev f) (same : SameVolume f g)
    (cluster : f.IsCluster g.nextClusterNumber) {size : Nat} (positive : 0 < size)
    (within : size ≤ f.clusterSize) {buf : List UInt8} (length : buf.length = size) :
    readTurn dev ⟨g, buf, size, 0, false⟩ =
      .ok (.inl ⟨g.setClusters g.nextClusterNumber (fatEntry dev f g.nextClusterNumber),
        dev.slice (f.dataStart g.nextClusterNumber).toNat size, size, 0,
        decide (size < f.clusterSize)⟩) := by
  have bound := volume.clusterSize_lt
  have planned : plan f.clusterSize size 0 =
      ⟨some (size, 0), size, 0, decide (size < f.clusterSize)⟩ := by
    obtain ⟨-, planned⟩ | ⟨beyond, -⟩ | ⟨beyond, -⟩ | ⟨beyond, -⟩ :=
      plan_cases bound (by omega : size < 2 ^ 32) positive
    · exact planned
    all_goals omega
  have moved := same.setClusters g.nextClusterNumber (fatEntry dev f g.nextClusterNumber)
  have moves := volume.getNextClusterNumber_cluster same cluster
  have issued : Reading.pread dev ⟨g, buf, size, 0, false⟩ =
      some ⟨size, 0, f.dataStart g.nextClusterNumber⟩ := by
    rw [Reading.pread_eq_some]
    dsimp only
    have status : (0 : Int) ≠ -1 := by decide
    rw [moves, Vfat.bytesPerSector, moved.clusterSize, planned, moved.dataStart]
    exact ⟨⟨Bool.false_ne_true, status⟩, rfl, rfl⟩
  have address : Pread.address ⟨size, 0, f.dataStart g.nextClusterNumber⟩ =
      (f.dataStart g.nextClusterNumber).toNat := by
    rw [Pread.address, add_zero]
    exact uint32_of_fits (f.dataStart g.nextClusterNumber).toNat_lt
  have stored : storeBuf buf (dev.slice (f.dataStart g.nextClusterNumber).toNat size) =
      .ok (dev.slice (f.dataStart g.nextClusterNumber).toNat size) := by
    rw [storeBuf, slice_length, length, if_pos (Nat.le_refl _), ← length, List.drop_length,
      List.append_nil]
  rw [readTurn]
  rw [moves]
  dsimp only
  rw [if_neg (by decide), if_neg (by decide), Vfat.bytesPerSector, moved.clusterSize, planned,
    issued]
  dsimp only
  rw [address, pread_inside (volume.data_inside cluster within), stored]
  rfl

/-- A request for less than a cluster ends after the first cluster. -/
theorem loop_part (volume : Volume dev f) (same : SameVolume f g)
    (cluster : f.IsCluster g.nextClusterNumber) {size : Nat} (positive : 0 < size)
    (less : size < f.clusterSize) {buf : List UInt8} (length : buf.length = size) :
    ∃ r, loop (readTurn dev) 2 ⟨g, buf, size, 0, false⟩ = some (.ok r) ∧
      r.buf = dev.slice (f.dataStart g.nextClusterNumber).toNat size := by
  have turn := readTurn_cluster volume same cluster positive less.le length
  rw [decide_eq_true less] at turn
  have stop : ∀ r : Reading, r.lastRound = true → readTurn dev r = .ok (.inr r) :=
    fun r last => by rw [readTurn, if_pos last]
  exact ⟨_, (loop_again turn).trans (loop_done (stop _ rfl)), rfl⟩

/-- A request for exactly one cluster ends with the chain, and every cluster is stored over the
one before it. -/
theorem loop_whole (volume : Volume dev f) {chain : List UInt32} :
    ∀ (g : Vfat) (buf : List UInt8), SameVolume f g → Chain dev f g.nextClusterNumber chain →
      buf.length = f.clusterSize →
        ∃ r, loop (readTurn dev) (chain.length + 1) ⟨g, buf, f.clusterSize, 0, false⟩ =
            some (.ok r) ∧
          r.buf = (chain.getLast?.map fun n =>
            dev.slice (f.dataStart n).toNat f.clusterSize).getD buf := by
  induction chain with
  | nil =>
      intro g buf same linked length
      have stop : readTurn dev ⟨g, buf, f.clusterSize, 0, false⟩ =
          .ok (.inr ⟨g.setClusters 0xFFFFFFFF 0xFFFFFFFF, buf, f.clusterSize, 0, false⟩) := by
        rw [readTurn, if_neg Bool.false_ne_true, getNextClusterNumber_end linked]
        rfl
      exact ⟨_, loop_done stop, rfl⟩
  | cons n chain ih =>
      intro g buf same linked length
      obtain ⟨rfl, cluster, rest⟩ := linked
      have turn := readTurn_cluster volume same cluster volume.clusterSize_pos (Nat.le_refl _) length
      rw [decide_eq_false (Nat.lt_irrefl _)] at turn
      obtain ⟨r, ended, shown⟩ := ih _ _ (same.setClusters _ _) rest (slice_length _ _)
      refine ⟨r, (loop_again turn).trans ended, shown.trans ?_⟩
      rw [List.getLast?_cons]
      cases chain.getLast? <;> rfl

end Shown

/-! ## The contract -/

/-- A call that does not give up, without the conversions. -/
theorem vfatFuseRead_eq {dev : Device} {f : Vfat} {buf : List UInt8} {size offset fuel : Nat}
    (less : offset < size) (representable : offset < 2 ^ 63) :
    vfatFuseRead dev fuel f buf size offset =
      (loop (readTurn dev) fuel ⟨f.loadDirentry dev, buf, size, offset, false⟩).map fun result =>
        result.map fun r => (int32 size, r.buf, r.f) := by
  rw [vfatFuseRead, sizeT_of_fits (by omega), if_neg (Nat.not_le.mpr less)]

namespace Image

variable (image : Image)

/-- The number of bytes that a read has to return. -/
def available (size offset : Nat) : Nat := min size (image.fileSize - offset)

/-- The contract of a read, whatever the buffer holds before. -/
def ReadContract (size offset : Nat) : Prop :=
  ∀ buf : List UInt8, buf.length = size → ∃ fuel buf' f',
    vfatFuseRead image.dev fuel image.f buf size offset =
        some (.ok (image.available size offset, buf', f')) ∧
      buf'.take (image.available size offset) =
        (image.bytes.drop offset).take (image.available size offset)

/-- The first cluster of the chain. -/
def firstCluster : UInt32 := image.chain.headD 0

/-- The last cluster of the chain. -/
def lastCluster : UInt32 := image.chain.getLastD 0

/-- The reads that meet the contract. A request for less than a cluster shows the bytes at the
32-bit address of the first cluster, and a request for exactly one cluster those at the 32-bit
address of the last one. -/
def ReadsRight (size offset : Nat) : Prop :=
  offset = 0 ∧ size ≤ image.fileSize ∧
    ((size < image.f.clusterSize ∧
        image.dev.slice (image.f.dataStart image.firstCluster).toNat size =
          image.dev.slice (image.f.clusterAddress image.firstCluster) size) ∨
      (size = image.f.clusterSize ∧
        image.dev.slice (image.f.dataStart image.lastCluster).toNat size =
          image.dev.slice (image.f.clusterAddress image.firstCluster) size))

variable {image}

theorem chain_ne_nil {size : Nat} (positive : 0 < size) (within : size ≤ image.fileSize) :
    image.chain ≠ [] := by
  intro empty
  have covers : image.fileSize ≤ image.chain.length * image.f.clusterSize := image.covers
  rw [empty, List.length_nil, Nat.zero_mul] at covers
  omega

/-- What a request at offset 0 for at most one cluster shows. -/
theorem read_shows {size : Nat} (positive : 0 < size) (within : size ≤ image.fileSize)
    (small : size ≤ image.f.clusterSize) {buf : List UInt8} (length : buf.length = size) :
    ∃ fuel r, loop (readTurn image.dev) fuel
        ⟨image.f.loadDirentry image.dev, buf, size, 0, false⟩ = some (.ok r) ∧
      r.buf = image.dev.slice (image.f.dataStart (if size < image.f.clusterSize then
        image.firstCluster else image.lastCluster)).toNat size := by
  have linked := image.linked
  rw [← image.loadDirentry_next] at linked
  by_cases less : size < image.f.clusterSize
  · rw [if_pos less]
    obtain ⟨first, rest, chain⟩ := List.exists_cons_of_ne_nil (chain_ne_nil positive within)
    rw [chain] at linked
    obtain ⟨start, cluster, -⟩ := linked
    rw [← start] at cluster
    obtain ⟨r, ended, shown⟩ :=
      loop_part image.volume sameVolume_loadDirentry cluster positive less length
    refine ⟨2, r, ended, ?_⟩
    rw [shown, start, firstCluster, chain, List.headD_cons]
  · obtain rfl : size = image.f.clusterSize := by omega
    rw [if_neg less]
    obtain ⟨r, ended, shown⟩ := loop_whole image.volume _ buf sameVolume_loadDirentry linked length
    refine ⟨_, r, ended, shown.trans ?_⟩
    rw [lastCluster, List.getLastD_eq_getLast?, List.getLast?_eq_some_getLast (chain_ne_nil positive within)]
    rfl

/-- The bytes that the contract asks for, for a request at offset 0 for at most one cluster. -/
theorem bytes_take {size : Nat} (positive : 0 < size) (within : size ≤ image.fileSize)
    (small : size ≤ image.f.clusterSize) : image.bytes.take size =
      image.dev.slice (image.f.clusterAddress image.firstCluster) size := by
  obtain ⟨first, rest, chain⟩ := List.exists_cons_of_ne_nil (chain_ne_nil positive within)
  rw [bytes, firstCluster, chain, List.flatMap_cons, List.headD_cons,
    List.take_append_of_le_length (by rw [slice_length]; exact small), slice_take small]

/-- What the contract says about the loop. -/
theorem ReadContract.loop_eq {size offset : Nat} (representable : offset < 2 ^ 63)
    (contract : image.ReadContract size offset) :
    offset < size ∧ int32 size = image.available size offset ∧
      ∀ buf : List UInt8, buf.length = size → ∃ fuel r,
        loop (readTurn image.dev) fuel
          ⟨image.f.loadDirentry image.dev, buf, size, offset, false⟩ = some (.ok r) ∧
        r.buf.take (image.available size offset) =
          (image.bytes.drop offset).take (image.available size offset) := by
  have less : offset < size := by
    by_contra beyond
    obtain ⟨fuel, buf', f', read, -⟩ := contract (List.replicate size 0) List.length_replicate
    rw [vfatFuseRead, sizeT_of_fits (by omega), if_pos (by omega)] at read
    cases read
  have ran : ∀ buf : List UInt8, buf.length = size → int32 size = image.available size offset ∧
      ∃ fuel r, loop (readTurn image.dev) fuel
          ⟨image.f.loadDirentry image.dev, buf, size, offset, false⟩ = some (.ok r) ∧
        r.buf.take (image.available size offset) =
          (image.bytes.drop offset).take (image.available size offset) := by
    intro buf length
    obtain ⟨fuel, buf', f', read, same⟩ := contract buf length
    rw [vfatFuseRead_eq less representable] at read
    cases ended : loop (readTurn image.dev) fuel
        ⟨image.f.loadDirentry image.dev, buf, size, offset, false⟩ with
    | none =>
        rw [ended] at read
        cases read
    | some result =>
        rw [ended] at read
        cases result with
        | error fault => cases read
        | ok r =>
            simp only [Option.map_some, Except.map, Option.some.injEq, Except.ok.injEq,
              Prod.mk.injEq] at read
            obtain ⟨returned, rfl, -⟩ := read
            exact ⟨returned, fuel, r, ended, same⟩
  exact ⟨less, (ran (List.replicate size 0) List.length_replicate).1, fun buf length => (ran buf length).2⟩

/-- A read that returns what the contract asks for has to lie within the file. -/
theorem request_of_returned {size offset : Nat} (positive : 0 < size) (fits : size < 2 ^ 32)
    (returned : int32 size = image.available size offset) :
    image.available size offset = size ∧ offset + size ≤ image.fileSize := by
  have nonneg : 0 ≤ int32 size := returned ▸ Int.natCast_nonneg _
  have small : size < 2 ^ 31 := by
    rw [int32] at nonneg
    rw [Int.bmod_eq_emod] at nonneg
    split at nonneg <;> omega
  rw [int32_of_fits (by omega) (by omega)] at returned
  rw [available] at returned ⊢
  omega

/-- The contract can be met at offset 0 and for at most one cluster only: otherwise the end of the
buffer would have to be filled, but is not touched. -/
theorem ReadContract.within {size offset : Nat} (positive : 0 < size) (fits : size < 2 ^ 32)
    (representable : offset < 2 ^ 63) (contract : image.ReadContract size offset) :
    offset = 0 ∧ size ≤ image.fileSize ∧ size ≤ image.f.clusterSize := by
  have bound := image.volume.clusterSize_lt
  obtain ⟨less, returned, ran⟩ := contract.loop_eq representable
  obtain ⟨all, inFile⟩ := request_of_returned positive fits returned
  rw [all] at ran
  have filled : ∀ buf : List UInt8, buf.length = size → ∃ buf', (∃ fuel r,
      loop (readTurn image.dev) fuel ⟨image.f.loadDirentry image.dev, buf, size, offset, false⟩ =
        some (.ok r) ∧ r.buf = buf') ∧ buf'.take size = (image.bytes.drop offset).take size := by
    intro buf length
    obtain ⟨fuel, r, ended, same⟩ := ran buf length
    exact ⟨r.buf, ⟨fuel, r, ended, rfl⟩, same⟩
  have small : size ≤ image.f.clusterSize := by
    by_contra long
    refine not_filled (Nat.not_le.mp long) ?_ filled
    rintro buf buf' ⟨fuel, r, ended, rfl⟩
    exact loop_untouched (fun _ _ inv => plan_within_cluster bound inv) ⟨fits, less⟩
      sameVolume_loadDirentry ended
  have zero : offset = 0 := by
    by_contra later
    refine not_filled (Nat.sub_lt positive Nat.one_pos) ?_ filled
    rintro buf buf' ⟨fuel, r, ended, rfl⟩
    exact loop_untouched (fun _ _ inv => plan_below_request bound small inv)
      ⟨less, Nat.le_refl _, fun zero => absurd zero later⟩ sameVolume_loadDirentry ended
  exact ⟨zero, by omega, small⟩

/-- **The contract of a read** is met exactly by the reads at offset 0 that lie within the file and
are smaller than a cluster, or as large as one when the last cluster of the file equals the
first, and by these only where the 32-bit address of the cluster leads to the right bytes. -/
theorem readContract_iff {size offset : Nat} (positive : 0 < size) (fits : size < 2 ^ 32)
    (representable : offset < 2 ^ 63) :
    image.ReadContract size offset ↔ image.ReadsRight size offset := by
  constructor
  · intro contract
    obtain ⟨rfl, within, small⟩ := contract.within positive fits representable
    obtain ⟨-, returned, ran⟩ := contract.loop_eq representable
    rw [(request_of_returned positive fits returned).1] at ran
    obtain ⟨fuel, r, ended, shown⟩ :=
      read_shows positive within small (List.length_replicate (n := size) (a := 0))
    obtain ⟨fuel', r', ended', same⟩ := ran _ List.length_replicate
    obtain rfl : r = r' := Except.ok.inj (loop_unique ended ended')
    rw [shown, List.drop_zero, bytes_take positive within small, slice_take (Nat.le_refl _)] at same
    refine ⟨rfl, within, ?_⟩
    split at same
    · next part => exact .inl ⟨part, same⟩
    · exact .inr ⟨by omega, same⟩
  · rintro ⟨rfl, within, shows⟩ buf length
    have bound := image.volume.clusterSize_lt
    have all : image.available size 0 = size := by
      rw [available]
      omega
    have small : size ≤ image.f.clusterSize := by
      rcases shows with ⟨part, -⟩ | ⟨whole, -⟩
      · exact part.le
      · exact whole.le
    obtain ⟨fuel, r, ended, shown⟩ := read_shows positive within small length
    refine ⟨fuel, r.buf, r.f, ?_, ?_⟩
    · rw [vfatFuseRead_eq positive representable, all]
      change Option.map _ (loop (readTurn image.dev) fuel
        ⟨image.f.loadDirentry image.dev, buf, size, 0, false⟩) = _
      rw [ended, Option.map_some, Except.map, int32_of_fits (by omega) (by omega)]
    · rw [all, shown, List.drop_zero, bytes_take positive within small, slice_take (Nat.le_refl _)]
      rcases shows with ⟨part, same⟩ | ⟨whole, same⟩
      · rw [if_pos part, same]
      · rw [if_neg (by omega), same]

end Image

/-- The first four bytes of the file are read. -/
theorem readContract_sample :
    (0 < 4 ∧ 4 < 2 ^ 32 ∧ 0 < 2 ^ 63) ∧ sampleImage.ReadsRight 4 0 ∧ sampleImage.ReadContract 4 0 := by
  have shown : sampleImage.dev.slice (sampleImage.f.dataStart sampleImage.firstCluster).toNat 4 =
      sampleImage.dev.slice (sampleImage.f.clusterAddress sampleImage.firstCluster) 4 := by
    decide
  have right : sampleImage.ReadsRight 4 0 := ⟨rfl, by decide, .inl ⟨by decide, shown⟩⟩
  exact ⟨by decide, right,
    (Image.readContract_iff (by decide) (by decide) (by decide)).mpr right⟩

/-- A read of 4 bytes at offset 5 fails, although the file has 600 bytes. -/
theorem read_gives_up :
    ¬ ∀ (image : Image) (size offset : Nat), 0 < size → size < 2 ^ 32 → offset < 2 ^ 63 →
      image.ReadContract size offset := by
  intro law
  obtain ⟨fuel, buf', f', read, -⟩ := law sampleImage 4 5 (by decide) (by decide) (by decide)
    (List.replicate 4 0) List.length_replicate
  have gives : vfatFuseRead sampleImage.dev fuel sampleImage.f (List.replicate 4 0) 4 (5 : Nat) =
      some (.ok (-1, List.replicate 4 0, sampleImage.f)) := by
    rw [vfatFuseRead, if_pos (by decide)]
  rw [gives] at read
  cases read

end OsTasks.Fat
