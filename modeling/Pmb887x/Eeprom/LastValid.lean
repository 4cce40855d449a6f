import Pmb887x.Eeprom.Search

set_option autoImplicit false

/-! # Finding the last valid entry

Where no data unit reads as a valid entry, a search over a history of inline writes finds the last
valid entry of its block; where one does, data is taken for an entry (`lastValidLaw_iff`). -/

namespace Pmb887x.Eeprom

open Library

variable {flash : FlashMap} {type : PartitionType}

/-! ## The image of a history -/

theorem emptyPartition_of_lt {a : Nat} (h : a < nsgPartitionSize - 32) :
    emptyPartition type a = 0xFF := by
  simp only [nsgPartitionSize, partitionBlockSize] at h
  simp only [emptyPartition, writePartitionHeader, x85PartitionSize, x85HeaderSize]
  rw [store_of_lt _ (by omega), store_of_lt _ (by omega), store_of_lt _ (by omega),
    store_of_lt _ (by omega), store_of_lt _ (by omega)]

theorem emptyPartition_upper {a : Nat} (h : 16 ≤ a % 32) : emptyPartition type a = 0xFF := by
  by_cases hlow : a < nsgPartitionSize - 32
  · exact emptyPartition_of_lt hlow
  · simp only [nsgPartitionSize, partitionBlockSize] at hlow
    simp only [emptyPartition, writePartitionHeader, x85PartitionSize, x85HeaderSize]
    by_cases hhigh : a < 0x40000
    · have hrest := holdsAt_store (List.replicate (32 - 13) 0xFF)
        (store (store (store (store (fun _ => 0xFF) (0x40000 - 32) ((partitionName type).take 6))
          (0x40000 - 32 + 6) [0, 0]) (0x40000 - 32 + 10) [0, 0]) (0x40000 - 32 + 12) [0xF0])
        (0x40000 - 32 + 13) (a - (0x40000 - 32 + 13)) (by simp only [List.length_replicate]; omega)
      rw [List.getElem_replicate, Nat.add_sub_cancel' (by omega)] at hrest
      exact hrest
    · have hname : ((partitionName type).take 6).length = 6 := by cases type <;> rfl
      rw [store_of_ge _ (by simp only [List.length_replicate]; omega),
        store_of_ge _ (by simp only [List.length_cons, List.length_nil]; omega),
        store_of_ge _ (by simp only [List.length_cons, List.length_nil]; omega),
        store_of_ge _ (by simp only [List.length_cons, List.length_nil]; omega),
        store_of_ge _ (by omega)]

theorem emptyPartition_header (type : PartitionType) :
    partitionHeaderMatches ⟨emptyPartition type, nsgPartitionSize⟩
      (nsgPartitionSize - nsgHeaderSize) nsgHeaderSize (partitionName type) = .ok true := by
  cases type <;> decide +kernel

theorem InlineEntry.SizeOk.lt {e : InlineEntry} (h : e.SizeOk type) :
    e.payload.length < 2 ^ 32 := by
  cases type with
  | eelite => exact Nat.lt_of_le_of_lt h.2 (by decide)
  | eefull => exact Nat.lt_of_le_of_lt h.2 (by decide)

/-- What a history of writes leaves in the image. -/
theorem laidDown_spec (type : PartitionType) {entries : List InlineEntry}
    (hsizes : ∀ e ∈ entries, e.SizeOk type) (hfits : Fits (nsgPartitionSize - 32) entries) :
    Laid (laidDown type entries).data type (nsgPartitionSize - 32) entries ∧
      (∀ a, 16 ≤ a % 32 → (laidDown type entries).data a = 0xFF) ∧
      partitionHeaderMatches (laidDown type entries) (nsgPartitionSize - nsgHeaderSize)
        nsgHeaderSize (partitionName type) = .ok true := by
  obtain ⟨hlaid, hother⟩ := writeEntries_laid type entries (emptyPartition type)
    (nsgPartitionSize - 32) (by decide) (by decide) (fun e he => (hsizes e he).lt) hfits
    (fun a ha => emptyPartition_of_lt ha)
  have hstart : sub32 (nsgPartitionSize - 32) 32 = x85PartitionSize - x85HeaderSize - x85EntrySize :=
    by decide
  rw [hstart] at hlaid hother
  refine ⟨hlaid, fun a ha => (hother a (.inr ha)).trans (emptyPartition_upper ha), ?_⟩
  refine Eq.trans ?_ (emptyPartition_header type)
  exact partitionHeaderMatches_congr rfl (by decide) (partitionName_length type)
    (fun a ha _ => hother a (.inl ha))

/-! ## The law -/

/-- The last entry that was written as valid for the block. -/
def lastValid (id : Nat) (entries : List InlineEntry) : Option InlineEntry :=
  entries.reverse.find? (fun e => e.valid && e.id == id)

theorem lastValid_cons (id : Nat) (e : InlineEntry) (rest : List InlineEntry) :
    lastValid id (e :: rest)
      = (lastValid id rest).or (if e.valid && e.id == id then some e else none) := by
  simp only [lastValid, List.reverse_cons, List.find?_append]
  congr 1
  by_cases h : (e.valid && e.id == id) = true
  · simp [h]
  · simp [h]

/-- The units that hold payload. -/
def payloadUnits : Nat → List InlineEntry → List Nat
  | _, [] => []
  | top, e :: rest =>
      (List.range (dataUnits e.payload.length)).map (fun j => top - 32 - 32 * (j + 1))
        ++ payloadUnits (top - 32 - 32 * dataUnits e.payload.length) rest

/-- A search finds the last valid entry of its block and nothing else, and no unit that holds
    payload is taken for an entry. -/
def LastValidLaw (type : PartitionType) (entries : List InlineEntry) : Prop :=
  (∀ id < 2 ^ 32, ∀ block, ∃ result block',
    eepromFindBlockInMemory (laidDown type entries) type id block = .ok (result, block') ∧
      match lastValid id entries with
      | some e => result = .ok ∧ block'.Shows (laidDown type entries) type e
      | none => result = .blockNotFound) ∧
  ∀ unit ∈ payloadUnits (nsgPartitionSize - 32) entries, ∀ id,
    classifyEntry (laidDown type entries) .nsg type unit ≠ .ok (.block id)

/-- An entry that cannot be misread: its id belongs to the partition type, and no full chunk of its
    payload reads as a valid entry. -/
def InlineEntry.Distinct (type : PartitionType) (e : InlineEntry) : Prop :=
  (e.valid = true → type.HoldsId e.id) ∧
    ∀ j, 1 ≤ j → 16 * j ≤ e.payload.length → unitBlockId type (e.chunk j) = none

/-- A data unit of an entry is taken for an entry only where a full chunk reads as one. -/
theorem unitBlockId_data {data : Image} {entryOffset : Nat} {e : InlineEntry}
    (hlaid : EntryLaid data type entryOffset e)
    (hunits : 32 * dataUnits e.payload.length ≤ entryOffset) {j : Nat} (hj : 1 ≤ j)
    (hjn : j ≤ dataUnits e.payload.length)
    (hchunk : 16 * j ≤ e.payload.length → unitBlockId type (e.chunk j) = none) :
    unitBlockId type (unitAt data (entryOffset - 32 * j)) = none := by
  by_cases hfull : 16 * j ≤ e.payload.length
  · rw [unitAt_chunk hlaid hunits hj hfull]
    exact hchunk hfull
  · exact unitBlockId_short hlaid hjn (by omega)

/-- **The search over a history of distinct entries.** From `top` down the last valid entry of the
    block replaces whatever was matched before. -/
theorem searchBelow_laid (hsize : flash.size = nsgPartitionSize) (blockId : Nat)
    (entries : List InlineEntry) :
    ∀ (top : Nat) (matched : Bool) (block : Block), top % 32 = 0 → top + 32 ≤ nsgPartitionSize →
      (∀ e ∈ entries, e.SizeOk type ∧ e.Distinct type) → Fits top entries →
      Laid flash.data type top entries →
      ∃ matched' block', searchBelow flash type blockId top matched block
          = .ok (searchResult matched', matched', block') ∧
        match lastValid blockId entries with
        | some e => matched' = true ∧ block'.Shows flash type e
        | none => matched' = matched ∧ block' = block := by
  induction entries with
  | nil =>
      intro top matched block ht hle _ _ herased
      refine ⟨matched, block, searchBelow_unmatched matched block hsize ht hle
        (fun offset _ hlt => ?_), rfl, rfl⟩
      rw [unitBlockId_erased (herased offset hlt)]
      simp
  | cons e rest ih =>
      intro top matched block ht hle hentries hfits hlaid
      obtain ⟨hfit, hfitrest⟩ := hfits
      obtain ⟨hentry, hrest⟩ := hlaid
      obtain ⟨hok, hid, hchunks⟩ := hentries e (List.mem_cons_self ..)
      have hunits := fits_units ht hok.lt hfit
      have hunit := unitBlockId_entry hentry hid
      -- the units of the data are passed over, whatever was matched before
      have hdata : ∀ (matched : Bool) (block : Block),
          searchBelow flash type blockId (top - 32) matched block
            = searchBelow flash type blockId (top - 32 - 32 * dataUnits e.payload.length) matched
              block := by
        intro matched block
        refine searchBelow_skip_units hsize (by omega) (by omega) _ (by omega) (fun j hj hjn => ?_)
        rw [unitBlockId_data hentry (by omega) hj hjn (hchunks j hj)]
        simp
      have hrest' := fun matched block => ih (top - 32 - 32 * dataUnits e.payload.length) matched
        block (by omega) (by omega) (fun e' he' => hentries e' (List.mem_cons_of_mem _ he'))
        hfitrest hrest
      rw [lastValid_cons]
      by_cases hmatch : (e.valid && e.id == blockId) = true
      · rw [if_pos hmatch]
        simp only [Bool.and_eq_true, beq_iff_eq] at hmatch
        rw [if_pos hmatch.1, hmatch.2] at hunit
        obtain ⟨block₁, hshows, hstep⟩ := searchBelow_match matched block hsize ht hle
          hentry hfit hok hunit
        obtain ⟨matched', block', hend, hlast⟩ := hrest' true block₁
        refine ⟨matched', block', by rw [hstep, hdata, hend], ?_⟩
        cases hfound : lastValid blockId rest with
        | some e' =>
            rw [hfound] at hlast
            exact hlast
        | none =>
            rw [hfound] at hlast
            obtain ⟨rfl, rfl⟩ := hlast
            exact ⟨rfl, hshows⟩
      · rw [if_neg hmatch, Option.or_none]
        have hne : unitBlockId type (unitAt flash.data (top - 32)) ≠ some blockId := by
          rw [hunit]
          cases hvalid : e.valid with
          | false => simp
          | true =>
              simp only [hvalid, Bool.true_and, beq_iff_eq] at hmatch
              simp [hmatch]
        obtain ⟨matched', block', hend, hlast⟩ := hrest' matched block
        exact ⟨matched', block',
          by rw [searchBelow_skip hsize ht (by omega) hle hne, hdata, hend], hlast⟩

/-- Every entry of a history stands somewhere, and its data units are payload units. -/
theorem exists_entryLaid {data : Image} {e : InlineEntry} (entries : List InlineEntry) :
    ∀ {top : Nat}, top % 32 = 0 → (∀ e ∈ entries, e.SizeOk type) → Fits top entries →
      Laid data type top entries → e ∈ entries →
      ∃ entryOffset, EntryLaid data type entryOffset e ∧ entryOffset + 32 ≤ top ∧
        32 * dataUnits e.payload.length ≤ entryOffset ∧
        ∀ j, 1 ≤ j → j ≤ dataUnits e.payload.length →
          entryOffset - 32 * j ∈ payloadUnits top entries := by
  induction entries with
  | nil => intro top _ _ _ _ he; cases he
  | cons e' rest ih =>
      intro top ht hsizes hfits hlaid he
      have hunits := fits_units ht (hsizes e' (List.mem_cons_self ..)).lt hfits.1
      simp only [payloadUnits, List.mem_append, List.mem_map, List.mem_range]
      rcases List.mem_cons.1 he with rfl | he
      · refine ⟨top - 32, hlaid.1, by omega, by omega, fun j hj hjn => .inl ⟨j - 1, by omega, ?_⟩⟩
        rw [Nat.sub_add_cancel hj]
      · obtain ⟨entryOffset, hentry, htop, hlow, hmem⟩ := ih (by omega)
          (fun e'' he'' => hsizes e'' (List.mem_cons_of_mem _ he'')) hfits.2 hlaid.2 he
        exact ⟨entryOffset, hentry, by omega, hlow, fun j hj hjn => .inr (hmem j hj hjn)⟩

/-- Every payload unit is a data unit of an entry. -/
theorem exists_of_mem_payloadUnits {data : Image} {unit : Nat} (entries : List InlineEntry) :
    ∀ {top : Nat}, top % 32 = 0 → (∀ e ∈ entries, e.SizeOk type) → Fits top entries →
      Laid data type top entries → unit ∈ payloadUnits top entries →
      ∃ e ∈ entries, ∃ entryOffset j, EntryLaid data type entryOffset e ∧
        entryOffset + 32 ≤ top ∧ 32 * dataUnits e.payload.length ≤ entryOffset ∧ 1 ≤ j ∧
        j ≤ dataUnits e.payload.length ∧ unit = entryOffset - 32 * j := by
  induction entries with
  | nil => intro top _ _ _ _ hunit; cases hunit
  | cons e rest ih =>
      intro top ht hsizes hfits hlaid hunit
      have hunits := fits_units ht (hsizes e (List.mem_cons_self ..)).lt hfits.1
      simp only [payloadUnits, List.mem_append, List.mem_map, List.mem_range] at hunit
      rcases hunit with ⟨j, hj, rfl⟩ | hunit
      · exact ⟨e, List.mem_cons_self .., top - 32, j + 1, hlaid.1, by omega, by omega, by omega,
          by omega, rfl⟩
      · obtain ⟨e', he', entryOffset, j, hentry, htop, hrest⟩ := ih (by omega)
          (fun e'' he'' => hsizes e'' (List.mem_cons_of_mem _ he'')) hfits.2 hlaid.2 hunit
        exact ⟨e', List.mem_cons_of_mem _ he', entryOffset, j, hentry, by omega, hrest⟩

section Law

variable {entries : List InlineEntry}

theorem laidDown_size : (laidDown type entries).size = nsgPartitionSize := rfl

/-- Distinct entries give the law. -/
theorem lastValidLaw_of_distinct (hsizes : ∀ e ∈ entries, e.SizeOk type)
    (hfits : Fits (nsgPartitionSize - 32) entries) (hdistinct : ∀ e ∈ entries, e.Distinct type) :
    LastValidLaw type entries := by
  obtain ⟨hlaid, hupper, hheader⟩ := laidDown_spec type hsizes hfits
  constructor
  · intro id _ block
    obtain ⟨matched, block', hsearch, hlast⟩ := searchBelow_laid laidDown_size id entries
      (nsgPartitionSize - 32) false block (by decide) (by decide)
      (fun e he => ⟨hsizes e he, hdistinct e he⟩) hfits hlaid
    rw [← findPartitionBlock_nsg] at hsearch
    refine ⟨_, block', eepromFindBlockInMemory_nsg laidDown_size hupper hheader hsearch, ?_⟩
    cases hfound : lastValid id entries with
    | some e =>
        rw [hfound] at hlast
        exact ⟨by rw [hlast.1]; rfl, hlast.2⟩
    | none =>
        rw [hfound] at hlast
        rw [hlast.1]
        rfl
  · intro unit hunit id hclass
    obtain ⟨e, he, entryOffset, j, hentry, htop, hlow, hj, hjn, rfl⟩ :=
      exists_of_mem_payloadUnits entries (by decide) hsizes hfits hlaid hunit
    obtain ⟨seen, hseen, hblock⟩ := classifyEntry_nsg type
      (show entryOffset - 32 * j + 16 ≤ (laidDown type entries).size by
        rw [laidDown_size]; omega)
    rw [hclass] at hseen
    have hsome := (hblock id).1 (Except.ok.inj hseen).symm
    rw [unitBlockId_data hentry hlow hj hjn ((hdistinct e he).2 j hj)] at hsome
    cases hsome

/-- A valid entry with an id of the other type is never found. -/
theorem holdsId_of_lastValidLaw (hsizes : ∀ e ∈ entries, e.SizeOk type)
    (hfits : Fits (nsgPartitionSize - 32) entries) (hlaw : LastValidLaw type entries)
    {e : InlineEntry} (he : e ∈ entries) (hid : e.id < 2 ^ 32) (hvalid : e.valid = true) :
    type.HoldsId e.id := by
  obtain ⟨hlaid, hupper, hheader⟩ := laidDown_spec type hsizes hfits
  by_contra hout
  obtain ⟨result, block', hresult, hlast⟩ := hlaw.1 e.id hid ⟨.inlineData, 0, 0, fun _ => 0⟩
  have hsearch : searchBelow (laidDown type entries) type e.id (nsgPartitionSize - 32) false
      ⟨.inlineData, 0, 0, fun _ => 0⟩ = _ :=
    searchBelow_unmatched false _ laidDown_size (by decide) (by decide)
      (fun offset _ _ hunit => hout (holdsId_of_unitBlockId hunit))
  rw [← findPartitionBlock_nsg] at hsearch
  have hmissing := eepromFindBlockInMemory_nsg laidDown_size hupper hheader hsearch
  rw [hresult] at hmissing
  obtain ⟨rfl, -⟩ := Prod.mk.inj (Except.ok.inj hmissing)
  have hsome : lastValid e.id entries ≠ none := by
    simp only [lastValid, ne_eq, List.find?_eq_none, List.mem_reverse]
    exact fun hall => hall e he (by simp [hvalid])
  cases hfound : lastValid e.id entries with
  | none => exact hsome hfound
  | some e' =>
      rw [hfound] at hlast
      exact absurd hlast.1 (by decide)

/-- A chunk that reads as a valid entry is taken for one. -/
theorem chunk_of_lastValidLaw (hsizes : ∀ e ∈ entries, e.SizeOk type)
    (hfits : Fits (nsgPartitionSize - 32) entries) (hlaw : LastValidLaw type entries)
    {e : InlineEntry} (he : e ∈ entries) {j : Nat} (hj : 1 ≤ j)
    (hfull : 16 * j ≤ e.payload.length) : unitBlockId type (e.chunk j) = none := by
  obtain ⟨hlaid, -, -⟩ := laidDown_spec type hsizes hfits
  obtain ⟨entryOffset, hentry, htop, hlow, hmem⟩ :=
    exists_entryLaid entries (by decide) hsizes hfits hlaid he
  obtain ⟨seen, hseen, hblock⟩ := classifyEntry_nsg type
    (show entryOffset - 32 * j + 16 ≤ (laidDown type entries).size by rw [laidDown_size]; omega)
  rw [unitAt_chunk hentry hlow hj hfull] at hblock
  cases hchunk : unitBlockId type (e.chunk j) with
  | none => rfl
  | some id =>
      rw [(hblock id).2 hchunk] at hseen
      exact absurd hseen (hlaw.2 _ (hmem j hj (by simp only [dataUnits]; omega)) id)

/-- **When the law holds.** Over every history that fits the partition: exactly when the valid
    entries have ids of the partition's type and no full chunk of a payload reads as a valid
    entry. -/
theorem lastValidLaw_iff (type : PartitionType) (entries : List InlineEntry)
    (hsizes : ∀ e ∈ entries, e.SizeOk type) (hids : ∀ e ∈ entries, e.id < 2 ^ 32)
    (hfits : Fits (nsgPartitionSize - 32) entries) :
    LastValidLaw type entries ↔ ∀ e ∈ entries, e.Distinct type :=
  ⟨fun hlaw e he => ⟨holdsId_of_lastValidLaw hsizes hfits hlaw he (hids e he),
      fun _ hj hfull => chunk_of_lastValidLaw hsizes hfits hlaw he hj hfull⟩,
    lastValidLaw_of_distinct hsizes hfits⟩

end Law

/-- The three writes of the parser's own test. -/
theorem lastValidLaw_iff_duplicates :
    LastValidLaw .eelite [⟨false, 75, 1, [0x11, 0x12, 0x13, 0x14]⟩,
      ⟨true, 76, 2, [0x11, 0x12, 0x13, 0x14]⟩, ⟨true, 76, 3, [0x21, 0x22, 0x23, 0x24]⟩] := by
  refine (lastValidLaw_iff .eelite _ ?_ ?_ ?_).2 ?_
  · simp [InlineEntry.SizeOk]
  · simp
  · exact ⟨by decide, by decide, by decide, trivial⟩
  · simp only [List.mem_cons, List.not_mem_nil, or_false]
    rintro e (rfl | rfl | rfl)
    all_goals
      refine ⟨fun _ => by simp [PartitionType.HoldsId, eefullBlockIdBase], fun j hj hfull => ?_⟩
      simp only [List.length_cons, List.length_nil] at hfull
      omega

/-- A payload that reads as a valid one-byte entry of block 76. -/
def collidingEntry : InlineEntry :=
  ⟨true, 1, 0, [0xC0, 0xFF, 0xFF, 0xFF, 76, 0, 0xFF, 9, 1, 0, 0, 0, 0, 0, 0, 0]⟩

/-- Block 76 was never written, yet the search for it ends with `OK`. -/
theorem lastValidLaw_collision :
    (∀ e ∈ [collidingEntry], e.SizeOk .eelite) ∧ (∀ e ∈ [collidingEntry], e.id < 2 ^ 32) ∧
      Fits (nsgPartitionSize - 32) [collidingEntry] ∧ ¬ LastValidLaw .eelite [collidingEntry] := by
  have hsizes : ∀ e ∈ [collidingEntry], e.SizeOk .eelite := by
    simp [InlineEntry.SizeOk, collidingEntry]
  have hfits : Fits (nsgPartitionSize - 32) [collidingEntry] := ⟨by decide, trivial⟩
  refine ⟨hsizes, by simp [collidingEntry], hfits, fun hlaw => ?_⟩
  obtain ⟨⟨hentry, herased⟩, hupper, hheader⟩ := laidDown_spec .eelite hsizes hfits
  have hunit : unitBlockId .eelite (unitAt (laidDown .eelite [collidingEntry]).data
      (nsgPartitionSize - 32 - 32)) ≠ some 76 := by
    rw [unitBlockId_entry hentry (fun _ => by simp [PartitionType.HoldsId, collidingEntry,
      eefullBlockIdBase])]
    decide
  have hchunk : unitBlockId .eelite (unitAt (laidDown .eelite [collidingEntry]).data
      (nsgPartitionSize - 64 - 32)) = some 76 := by
    have hdata := unitAt_chunk hentry (by decide) (Nat.le_refl 1) (by decide)
    exact (congrArg (unitBlockId .eelite) hdata).trans (by decide)
  obtain ⟨block₁, hdecode⟩ : ∃ block₁, decodeNsgBlock (laidDown .eelite [collidingEntry])
      nsgPartition .eelite (nsgPartitionSize - 64 - 32)
      (nsgPartition.base + (nsgPartitionSize - 64 - 32)) ⟨.inlineData, 0, 0, fun _ => 0⟩
      = .ok (.ok, block₁) := by
    have hok : (decodeNsgBlock (laidDown .eelite [collidingEntry])
      nsgPartition .eelite (nsgPartitionSize - 64 - 32)
      (nsgPartition.base + (nsgPartitionSize - 64 - 32))
      ⟨.inlineData, 0, 0, fun _ => 0⟩).toOption.map Prod.fst = some .ok := by decide +kernel
    cases hdecode : decodeNsgBlock (laidDown .eelite [collidingEntry]) nsgPartition .eelite
        (nsgPartitionSize - 64 - 32) (nsgPartition.base + (nsgPartitionSize - 64 - 32))
        ⟨.inlineData, 0, 0, fun _ => 0⟩ with
    | error fault =>
        rw [hdecode] at hok
        cases hok
    | ok r =>
        rw [hdecode] at hok
        exact ⟨r.2, congrArg (fun result => Except.ok (result, r.2)) (Option.some.inj hok)⟩
  have hsearch : searchBelow (laidDown .eelite [collidingEntry]) .eelite 76 (nsgPartitionSize - 32)
      false ⟨.inlineData, 0, 0, fun _ => 0⟩ = .ok (searchResult true, true, block₁) := by
    rw [searchBelow_skip laidDown_size (by decide) (by decide) (by decide) hunit,
      show nsgPartitionSize - 32 - 32 = nsgPartitionSize - 64 from rfl,
      searchBelow_decode laidDown_size (by decide) (by decide) (by decide) hchunk hdecode]
    refine searchBelow_unmatched true block₁ laidDown_size (by decide) (by decide)
      (fun offset _ hlt => ?_)
    rw [unitBlockId_erased (herased offset hlt)]
    simp
  rw [← findPartitionBlock_nsg] at hsearch
  have hfound := eepromFindBlockInMemory_nsg laidDown_size hupper hheader hsearch
  obtain ⟨result, block', hresult, hlast⟩ := hlaw.1 76 (by decide) ⟨.inlineData, 0, 0, fun _ => 0⟩
  rw [hresult] at hfound
  obtain ⟨rfl, -⟩ := Prod.mk.inj (Except.ok.inj hfound)
  have hnever : searchResult true = .blockNotFound := hlast
  exact absurd hnever (by decide)

end Pmb887x.Eeprom
