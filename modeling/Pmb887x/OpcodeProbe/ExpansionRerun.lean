import Pmb887x.OpcodeProbe.Classes
import Pmb887x.OpcodeProbe.ExpansionHashes

set_option autoImplicit false

/-! # A rerun of the expansion probe

The table that `pack_expansion_hashes.pl` makes of the archive goes into the next build of the probe. A run of
a family that sees the records of the archived map again has the packed hashes, so that it prints no block
that differs. -/

namespace Pmb887x.OpcodeProbe.Expansion

open Library UnitTest

/-! ## Blocks that differ -/

/-- A turn counts a mismatch at the end of a block whose hash is not that of the table. -/
theorem mismatched_probeExpansion (hashes : HardwareHashes) (first index expansion : Nat)
    (r : Option Result) (st : State) :
    (probeExpansion hashes first index expansion r st).mismatchedBlocks
      = st.mismatchedBlocks +
        if isCompared hashes first index expansion = true ∧
            (probeExpansion hashes first index expansion r st).hash ≠ hashes.hash index (expansion / 256)
          then 1 else 0 := by
  have hprogress : ∀ st : State, (printProgress index expansion st).mismatchedBlocks
      = st.mismatchedBlocks := by
    intro st
    rw [printProgress]
    split_ifs
    · rfl
    · rfl
  have hbegin : (beginBlock expansion st).mismatchedBlocks = st.mismatchedBlocks := by
    rw [beginBlock]
    split_ifs
    · rfl
    · rfl
  have hcompare : ∀ st : State, (compareBlock hashes first index expansion st).mismatchedBlocks
      = st.mismatchedBlocks + if isCompared hashes first index expansion = true ∧
          st.hash ≠ hashes.hash index (expansion / 256) then 1 else 0 := by
    intro st
    rw [compareBlock]
    split_ifs with hcompared hsame hboth hboth hboth
    · exact absurd hsame hboth.2
    · rfl
    · rfl
    · exact absurd ⟨hcompared, hsame⟩ hboth
    · exact absurd hboth.1 hcompared
    · rfl
  rw [probeExpansion, hprogress, hcompare, hash_printProgress, hash_compareBlock]
  simp only [addRecord, State.print, hbegin]

section

variable {hashes : HardwareHashes} {board : Board} {index : FamilyIndex} {observed : Nat → Result}

/-- A table that has the hash of every block it has of the family. -/
def Matches (hashes : HardwareHashes) (board : Board) (index : FamilyIndex)
    (observed : Nat → Result) : Prop :=
  (index : Nat) + 1 ≤ hashes.families →
    ∀ block < 256, blockHash index observed board hashes block = hashes.hash index block

theorem mismatched_stateUpTo (h : Matches hashes board index observed) {n : Nat} (hn : n ≤ 0x10000) :
    (stateUpTo hashes board index observed n).mismatchedBlocks = 0 := by
  induction n with
  | zero => rfl
  | succ n ih =>
      have hsame : ¬ (isCompared hashes 0 index n = true ∧
          deviceHash index observed board hashes (n + 1) ≠ hashes.hash index (n / 256)) := by
        rintro ⟨hcompared, hne⟩
        simp only [isCompared, Bool.and_eq_true, decide_eq_true_eq] at hcompared
        obtain ⟨⟨hend, -⟩, hmapped⟩ := hcompared
        have hlast : 256 * (n / 256) + 256 = n + 1 := by omega
        have hblock := h hmapped (n / 256) (by omega)
        rw [blockHash, hlast] at hblock
        exact hne hblock
      rw [stateUpTo, mismatched_probeExpansion, ih (Nat.le_of_succ_le hn), Nat.zero_add]
      exact if_neg hsame

/-! ## The same records -/

/-- The hash of the device is a matter of the records. -/
theorem deviceHash_congr (hashes hashes' : HardwareHashes) {board' : Board} {observed' : Nat → Result}
    {n : Nat}
    (h : ∀ e < n, runRecord board' index observed' e = runRecord board index observed e) :
    deviceHash index observed' board' hashes' n = deviceHash index observed board hashes n := by
  induction n with
  | zero => rfl
  | succ n ih =>
      rw [deviceHash_succ, deviceHash_succ, h n (Nat.lt_succ_self n),
        ih fun e he => h e (Nat.lt_succ_of_lt he)]

end

/-! ## The table -/

/-- `expansion-map-hashes.inc` -/
def tableOf (rows : List (List Nat)) : HardwareHashes where
  families := familyCount
  hash family block := UInt32.ofNat ((rows.getD family []).getD block 0)

/-- The hashes of a family are those of its map. -/
theorem getD_packExpansionHashes {maps : Nat → Text} {rows : List (List Nat)}
    (h : packExpansionHashes maps = .ok rows) {family : Nat} (hfamily : family < familyCount) :
    packFamily family (maps family) = .ok (rows.getD family []) := by
  have hrows := (mapM_ok_iff _ _ _).mp h
  have hlength := hrows.length_eq
  rw [List.length_range] at hlength
  have hlt : family < rows.length := hlength ▸ hfamily
  have hrow := hrows.get (i := family) (hfamily.trans_eq List.length_range.symm) hlt
  rw [List.get_eq_getElem, List.getElem_range, List.get_eq_getElem] at hrow
  rw [hrow, List.getD_eq_getElem?_getD, List.getElem?_eq_getElem hlt, Option.getD_some]

theorem packExpansionHashes_ok {maps : Nat → Text}
    (h : ∀ family < familyCount, ∃ row, packFamily family (maps family) = .ok row) :
    ∃ rows, packExpansionHashes maps = .ok rows := by
  choose! row hrow using h
  refine ⟨(List.range familyCount).map row, (mapM_ok_iff _ _ _).mpr ?_⟩
  rw [List.forall₂_map_right_iff, List.forall₂_same]
  exact fun family hfamily => hrow family (List.mem_range.mp hfamily)

/-- A run that sees the records of the archived map matches the table. -/
theorem matches_tableOf (hashes : HardwareHashes) {board board' : Board} {index : FamilyIndex}
    {observed observed' : Nat → Result} {maps : Nat → Text} {rows : List (List Nat)}
    (hmap : maps index = runMap index observed board) (hrows : packExpansionHashes maps = .ok rows)
    (hrecords : ∀ e < 0x10000, runRecord board' index observed' e = runRecord board index observed e) :
    Matches (tableOf rows) board' index observed' := by
  intro hmapped block hblock
  have hrow := getD_packExpansionHashes hrows (Nat.lt_of_succ_le hmapped)
  rw [hmap, packFamily_runMap index observed board hashes] at hrow
  have hhash := deviceHash_congr hashes (tableOf rows) (n := 256 * block + 256) fun e he =>
    hrecords e (by omega)
  have hpacked : (rows.getD index []).getD block 0
      = (blockHash index observed board hashes block).toNat := by
    rw [← Except.ok.inj hrow, List.getD_eq_getElem?_getD, List.getElem?_map,
      List.getElem?_range hblock, Option.map_some, Option.getD_some]
  calc blockHash index observed' board' (tableOf rows) block
      = blockHash index observed board hashes block := hhash
    _ = UInt32.ofNat (blockHash index observed board hashes block).toNat := UInt32.ofNat_toNat.symm
    _ = (tableOf rows).hash index block := congrArg UInt32.ofNat hpacked.symm

/-- **The hashes of an accepted run**: the map that is made of its log has the hashes that the device
computed, it is valid, and a run that sees its records again reports no block that differs from the table with
these hashes. -/
theorem familyRun_hashes (d : Device) (hashes : HardwareHashes) (index : FamilyIndex)
    (observed : Nat → Result) {second map : Text}
    (h : mergeExpansionProbe (familyRun d hashes index observed).text second = .ok map) :
    packFamily index map
        = .ok ((List.range 256).map fun block => (blockHash index observed d.board hashes block).toNat) ∧
      validateExpansionMap index map = .ok () ∧
      ∀ maps rows, maps index = map → packExpansionHashes maps = .ok rows →
        ∀ (d' : Device) (observed' : Nat → Result),
          (∀ e < 0x10000, runRecord d'.board index observed' e = runRecord d.board index observed e) →
          (runEnd (tableOf rows) d'.board index observed').mismatchedBlocks = 0 := by
  have hmap := map_of_mergeExpansionProbe d hashes index observed h
  subst hmap
  refine ⟨packFamily_runMap index observed d.board hashes,
    validateExpansionMap_runMap index observed d.board, ?_⟩
  intro maps rows hmaps hrows d' observed' hrecords
  exact mismatched_stateUpTo (matches_tableOf hashes hmaps hrows hrecords) (Nat.le_refl _)

/-- Of three words one comes to its end, one runs out of time, and one does so in the trap handler. -/
def mixed (expansion : Nat) : Result where
  toObservation :=
    if expansion % 3 = 0 then Raw.completed
    else ⟨false, if expansion % 3 = 1 then noMarkers else { noMarkers with trap := markerTrap }⟩
  results := List.replicate 20 0
  length := List.length_replicate

def firstFamily : FamilyIndex := ⟨0, by decide⟩

/-- A run for a table that is not imported yet. -/
def unmapped : HardwareHashes := ⟨0, fun _ _ => 0⟩

/-- The maps of families whose words end like this. -/
def mixedMaps (family : Nat) : Text :=
  if h : family < families.length then runMap ⟨family, h⟩ mixed .pmb8875 else []

theorem lastLine_unmapped (index : FamilyIndex) (observed : Nat → Result) :
    lastLine Raw.plainDevice unmapped index observed = passLine := by
  have hcalls : (familyRun Raw.plainDevice unmapped index observed).calls.countP Call.fails = 0 := by
    rw [familyRun_eq, List.countP_eq_zero]
    intro call hcall
    rcases List.mem_append.mp hcall with hcall | hcall
    · obtain ⟨line, -, rfl⟩ := List.mem_map.mp hcall
      exact Bool.false_ne_true
    · exact List.mem_singleton.mp hcall ▸ Bool.false_ne_true
  rw [lastLine, Run.state_failures, hcalls]
  decide +kernel

theorem packExpansionHashes_mixed : ∃ rows, packExpansionHashes mixedMaps = .ok rows := by
  refine packExpansionHashes_ok fun family hfamily => ?_
  have hlt : family < families.length := Nat.lt_of_lt_of_le hfamily (by decide)
  rw [mixedMaps, dif_pos hlt]
  exact ⟨_, packFamily_runMap ⟨family, hlt⟩ mixed .pmb8875 unmapped⟩

/-- A run with words of all three kinds is merged with itself, and its rerun finds the hashes of all of its blocks. -/
theorem familyRun_hashes_mixed :
    ((List.range 3).map fun expansion => (runRecord .pmb8875 firstFamily mixed expansion).outcome)
        = [.complete, .timeout, .trapTimeout] ∧
      validateExpansionMap 0 (mixedMaps 0) = .ok () ∧
      ∃ rows, packExpansionHashes mixedMaps = .ok rows ∧
        (runEnd (tableOf rows) .pmb8875 firstFamily mixed).mismatchedBlocks = 0 := by
  have hmap : mixedMaps 0 = runMap firstFamily mixed .pmb8875 := dif_pos firstFamily.isLt
  have hmerge := mergeExpansionProbe_self Raw.plainDevice unmapped firstFamily mixed
    (lastLine_unmapped firstFamily mixed)
  obtain ⟨-, hvalid, hrerun⟩ := familyRun_hashes Raw.plainDevice unmapped firstFamily mixed hmerge
  obtain ⟨rows, hrows⟩ := packExpansionHashes_mixed
  rw [hmap]
  exact ⟨by decide, hvalid, rows, hrows, hrerun mixedMaps rows hmap hrows Raw.plainDevice _ fun _ _ => rfl⟩

end Pmb887x.OpcodeProbe.Expansion
