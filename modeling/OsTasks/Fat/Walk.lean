import OsTasks.Fat.Image

/-!
# Walking along a chain

`get_next_cluster_number` keeps the present cluster and the one after it. When the chain of a
cluster comes to an end (`FatChain`), calling the function again and again yields the clusters of
the chain one after the other, and -1 from then on (`walk_chain`).

The chain need not belong to a file, and its numbers need not be clusters of the volume. All that
is asked is that the FAT on the device has their entries.
-/

set_option autoImplicit false

namespace OsTasks.Fat

open OsTasks.Lib

/-- The numbers from one on, along the entries of the FAT, up to the first one that stands for the
end. -/
def FatChain (dev : Device) (f : Vfat) : UInt32 → List UInt32 → Prop
  | n, [] => EndOfChain n
  | n, cluster :: rest =>
      n = cluster ∧ ¬ EndOfChain cluster ∧ f.fatAddress cluster + 4 ≤ dev.size ∧
        FatChain dev f (fatEntry dev f cluster) rest

/-- What some calls of `get_next_cluster_number` in a row return, with `currentClusterNumber`
after each of them. -/
def clusterCalls (dev : Device) : Nat → Vfat → List (Int × UInt32)
  | 0, _ => []
  | calls + 1, f =>
      let (status, f) := getNextClusterNumber dev f
      (status, f.currentClusterNumber) :: clusterCalls dev calls f

section Walk

variable {dev : Device} {f g : Vfat} {start : UInt32} {clusters : List UInt32}

theorem FatChain.unique {others : List UInt32} (first : FatChain dev f start clusters)
    (second : FatChain dev f start others) : clusters = others := by
  induction clusters generalizing start others with
  | nil =>
      cases others with
      | nil => rfl
      | cons other others =>
          obtain ⟨rfl, goesOn, -⟩ := second
          exact absurd first goesOn
  | cons cluster clusters ih =>
      obtain ⟨rfl, goesOn, -, linked⟩ := first
      cases others with
      | nil => exact absurd second goesOn
      | cons other others =>
          obtain ⟨rfl, -, -, linked'⟩ := second
          rw [ih linked linked']

theorem FatChain.suffix {cluster : UInt32} (linked : FatChain dev f start clusters)
    (member : cluster ∈ clusters) :
    ∃ rest, FatChain dev f cluster (cluster :: rest) ∧ (cluster :: rest) <:+ clusters := by
  induction clusters generalizing start with
  | nil => cases member
  | cons first clusters ih =>
      obtain ⟨rfl, goesOn, inside, linked'⟩ := linked
      cases member with
      | head => exact ⟨clusters, ⟨rfl, goesOn, inside, linked'⟩, List.suffix_rfl⟩
      | tail _ later =>
          obtain ⟨rest, chain, suffix⟩ := ih linked' later
          exact ⟨rest, chain, suffix.trans (List.suffix_cons _ _)⟩

/-- A chain that ends comes to no cluster twice. -/
theorem FatChain.nodup (linked : FatChain dev f start clusters) : clusters.Nodup := by
  induction clusters generalizing start with
  | nil => exact List.nodup_nil
  | cons cluster clusters ih =>
      refine List.nodup_cons.mpr ⟨fun again => ?_, ih linked.2.2.2⟩
      obtain ⟨rest, chain, suffix⟩ := linked.2.2.2.suffix again
      obtain ⟨rfl, -⟩ := id linked
      have same := linked.unique chain
      have shorter := suffix.length_le
      rw [← same, List.length_cons] at shorter
      omega

/-- After the end of a chain every call returns -1. -/
theorem clusterCalls_end (ends : EndOfChain g.nextClusterNumber) (calls : Nat) :
    clusterCalls dev calls g = List.replicate calls (-1, 0xFFFFFFFF) := by
  induction calls generalizing g with
  | zero => rfl
  | succ calls ih =>
      have last : EndOfChain (g.setClusters 0xFFFFFFFF 0xFFFFFFFF).nextClusterNumber :=
        .inr rfl
      rw [clusterCalls, getNextClusterNumber_end ends]
      dsimp only
      rw [ih last]
      rfl

/-- One call after the other yields the clusters of the chain. -/
theorem clusterCalls_chain (same : SameVolume f g)
    (sectors : f.bootSector.bytsPerSec.toNat ≤ 4096)
    (linked : FatChain dev f g.nextClusterNumber clusters) (more : Nat) :
    clusterCalls dev (clusters.length + more) g =
      clusters.map (fun n => (0, n)) ++ List.replicate more (-1, 0xFFFFFFFF) := by
  induction clusters generalizing g with
  | nil =>
      rw [List.length_nil, Nat.zero_add]
      exact clusterCalls_end linked more
  | cons cluster clusters ih =>
      obtain ⟨rfl, goesOn, inside, linked'⟩ := linked
      have next := getNextClusterNumber_entry same sectors goesOn inside
      have later := @ih (g.setClusters g.nextClusterNumber (fatEntry dev f g.nextClusterNumber))
        (same.setClusters _ _) linked'
      rw [List.length_cons, Nat.succ_add, clusterCalls, next]
      dsimp only
      rw [later]
      rfl

/-- **The walk along a chain.** When the chain of a cluster has an end, the calls yield its clusters
in their order, each of them once, and then -1 for ever. The offset of an entry of the FAT fits
into an `int`. -/
theorem walk_chain (dev : Device) (f : Vfat) (sectors : f.bootSector.bytsPerSec.toNat ≤ 4096)
    (linked : FatChain dev f start clusters) :
    (∀ more, clusterCalls dev (clusters.length + more)
        (f.setClusters f.currentClusterNumber start) =
      clusters.map (fun n => (0, n)) ++ List.replicate more (-1, 0xFFFFFFFF)) ∧
    clusters.Nodup ∧
    ∀ n, ¬ EndOfChain n → f.fatAddress n < 2 ^ 31 ∧ f.clusterOffset n = f.fatAddress n := by
  have same : SameVolume f (f.setClusters f.currentClusterNumber start) := ⟨rfl, rfl⟩
  refine ⟨fun more => clusterCalls_chain same sectors linked more, linked.nodup, fun n goesOn => ?_⟩
  exact ⟨fatAddress_lt sectors goesOn, clusterOffset_of_sectors sectors goesOn⟩

/-- The chain of the file of the small image. -/
theorem walk_chain_sample : FatChain sampleDevice sampleVfat 3 [3, 4] ∧
    clusterCalls sampleDevice 4 (sampleVfat.setClusters 0 3) =
      [(0, 3), (0, 4), (-1, 0xFFFFFFFF), (-1, 0xFFFFFFFF)] := by
  have linked : FatChain sampleDevice sampleVfat 3 [3, 4] := by
    refine ⟨rfl, ?_, by decide, rfl, ?_, by decide, .inr rfl⟩ <;>
      exact not_or.mpr ⟨by decide, by decide⟩
  exact ⟨linked, (walk_chain sampleDevice sampleVfat (by decide) linked).1 2⟩

end Walk

end OsTasks.Fat
