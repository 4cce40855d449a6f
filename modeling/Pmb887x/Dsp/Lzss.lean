import Pmb887x.Library.Lzss

set_option autoImplicit false

/-! # The packer of the instruction test (`DspLzss.pm`)

`compressBlocks` packs a list of blocks that share one history of 64 KiB. A hash of three bytes leads
to the last position with that hash, `previous` from there to earlier ones; both arrays are indexed
modulo 65536 and may be stale, so a match counts only as far as it has been compared. Its output is a
series of valid tokens for each block (`compressBlocks_packed`). -/

namespace Pmb887x.Dsp

open Library Lzss

/-- `vec($data, $offset, 8)` -/
def vec (data : List UInt8) (offset : Nat) : UInt8 := data.getD offset 0

/-! ## Hash chains -/

/-- `@head` and `@previous`; -1 ends a chain. -/
structure Chains where
  head : Nat → Int
  previous : Nat → Int

def hashAt (input : List UInt8) (offset : Nat) : Nat :=
  (((vec input offset).toNat * 251 + (vec input (offset + 1)).toNat) * 251
    + (vec input (offset + 2)).toNat) % 0x10000

def insert (input : List UInt8) (chains : Chains) (offset : Nat) : Chains :=
  if offset + 2 ≥ input.length then chains
  else
    let hash := hashAt input offset
    { previous := Function.update chains.previous (offset % 0x10000) (chains.head hash)
      head := Function.update chains.head hash offset }

/-- `$length++ while …` -/
def matchLength (input : List UInt8) (candidate position maximumLength length : Nat) : Nat :=
  if length < maximumLength ∧ vec input (candidate + length) = vec input (position + length) then
    matchLength input candidate position maximumLength (length + 1)
  else length
termination_by maximumLength - length

/-- The search along a chain, with the attempts that are left; the result is `$best_length` and
    `$best_distance`. -/
def findMatch (input : List UInt8) (previous : Nat → Int) (position maximumLength : Nat) :
    Nat → Int → Nat → Nat → Nat × Nat
  | 0, _, bestLength, bestDistance => (bestLength, bestDistance)
  | attempts + 1, candidate, bestLength, bestDistance =>
      if 0 ≤ candidate ∧ position - candidate ≤ 65535 then
        let length := matchLength input candidate.toNat position maximumLength 0
        let next := previous (candidate.toNat % 0x10000)
        if length > bestLength then
          if length = maximumLength then (length, position - candidate.toNat)
          else
            findMatch input previous position maximumLength attempts next length
              (position - candidate.toNat)
        else findMatch input previous position maximumLength attempts next bestLength bestDistance
      else (bestLength, bestDistance)

/-! ## The packer -/

/-- The variables of the inner loop. -/
structure Compressor where
  chains : Chains
  packed : List UInt8
  literals : List UInt8
  position : Nat

def bestMatch (input : List UInt8) (blockEnd : Nat) (c : Compressor) : Nat × Nat :=
  let maximumLength := if blockEnd - c.position > 130 then 130 else blockEnd - c.position
  if maximumLength ≥ 4 then
    findMatch input c.chains.previous c.position maximumLength 64
      (c.chains.head (hashAt input c.position)) 0 0
  else (0, 0)

/-- `$packed .= pack('C', length($literals) - 1) . $literals if length($literals)` -/
def flushLiterals (c : Compressor) : Compressor :=
  if c.literals.length ≠ 0 then
    { c with packed := c.packed ++ (UInt8.ofNat (c.literals.length - 1) :: c.literals), literals := [] }
  else { c with literals := [] }

/-- The branch that stores a match. -/
def emitMatch (input : List UInt8) (c : Compressor) (bestLength bestDistance : Nat) : Compressor :=
  let c := flushLiterals c
  { c with
    packed := c.packed ++ (UInt8.ofNat (0x80 ||| (bestLength - 3)) :: leBytes 2 bestDistance)
    chains := (List.range' c.position bestLength).foldl (insert input) c.chains
    position := c.position + bestLength }

/-- The branch that keeps a literal. -/
def emitLiteral (input : List UInt8) (c : Compressor) : Compressor :=
  let c := { c with
    literals := c.literals ++ [vec input c.position]
    chains := insert input c.chains c.position
    position := c.position + 1 }
  if c.literals.length = 128 then { c with packed := c.packed ++ (127 :: c.literals), literals := [] }
  else c

def compressStep (input : List UInt8) (blockEnd : Nat) (c : Compressor) : Compressor :=
  let best := bestMatch input blockEnd c
  if best.1 ≥ 4 then emitMatch input c best.1 best.2 else emitLiteral input c

theorem flushLiterals_position (c : Compressor) : (flushLiterals c).position = c.position := by
  unfold flushLiterals
  split_ifs <;> rfl

theorem flushLiterals_chains (c : Compressor) : (flushLiterals c).chains = c.chains := by
  unfold flushLiterals
  split_ifs <;> rfl

theorem emitLiteral_position (input : List UInt8) (c : Compressor) :
    (emitLiteral input c).position = c.position + 1 := by
  unfold emitLiteral
  dsimp only
  split_ifs <;> rfl

theorem position_lt_compressStep (input : List UInt8) (blockEnd : Nat) (c : Compressor) :
    c.position < (compressStep input blockEnd c).position := by
  unfold compressStep
  dsimp only
  split_ifs with h
  · simp only [emitMatch, flushLiterals_position]
    omega
  · rw [emitLiteral_position]
    omega

/-- `while ($position < $block_end)` -/
def compressLoop (input : List UInt8) (blockEnd : Nat) (c : Compressor) : Compressor :=
  if c.position < blockEnd then compressLoop input blockEnd (compressStep input blockEnd c) else c
termination_by blockEnd - c.position
decreasing_by
  have := position_lt_compressStep input blockEnd c
  omega

/-- The variables of the outer loop. -/
structure Packer where
  compressor : Compressor
  offsets : List Nat
  sizes : List Nat
  maximumSize : Nat

def compressBlock (input : List UInt8) (p : Packer) (block : List UInt8) : Packer :=
  let blockEnd := p.compressor.position + block.length
  { compressor := flushLiterals (compressLoop input blockEnd p.compressor)
    offsets := p.offsets ++ [p.compressor.packed.length]
    sizes := p.sizes ++ [block.length]
    maximumSize := if block.length > p.maximumSize then block.length else p.maximumSize }

def packerStart : Packer where
  compressor := { chains := { head := fun _ => -1, previous := fun _ => -1 }
                  packed := [], literals := [], position := 0 }
  offsets := []
  sizes := []
  maximumSize := 0

def compressBlocks (blocks : List (List UInt8)) : Packer :=
  blocks.foldl (compressBlock blocks.flatten) packerStart

/-! ## What a search finds -/

/-- Every position in the chains is below `bound`. -/
def Chains.Below (chains : Chains) (bound : Nat) : Prop :=
  (∀ hash, chains.head hash < bound) ∧ ∀ k, chains.previous k < bound

theorem Chains.Below.insert {input : List UInt8} {chains : Chains} {bound offset : Nat}
    (h : chains.Below bound) (hoffset : offset < bound) :
    (insert input chains offset).Below bound := by
  unfold Dsp.insert
  split_ifs with hend
  · exact h
  · refine ⟨fun hash => ?_, fun k => ?_⟩
    · rcases eq_or_ne hash (hashAt input offset) with rfl | hne
      · simp only [Function.update_self]
        omega
      · simp only [Function.update_of_ne hne]
        exact h.1 hash
    · rcases eq_or_ne k (offset % 0x10000) with rfl | hne
      · simp only [Function.update_self]
        exact h.1 _
      · simp only [Function.update_of_ne hne]
        exact h.2 k

theorem Chains.Below.insertAll {input : List UInt8} {bound : Nat} (offsets : List Nat) :
    ∀ {chains : Chains}, chains.Below bound → (∀ offset ∈ offsets, offset < bound) →
      (offsets.foldl (Dsp.insert input) chains).Below bound := by
  induction offsets with
  | nil => intro chains h _; exact h
  | cons offset rest ih =>
      intro chains h hall
      exact ih (h.insert (hall offset List.mem_cons_self))
        (fun o ho => hall o (List.mem_cons_of_mem _ ho))

theorem Chains.Below.mono {chains : Chains} {bound bound' : Nat} (h : chains.Below bound)
    (hle : bound ≤ bound') : chains.Below bound' :=
  ⟨fun hash => Int.lt_of_lt_of_le (h.1 hash) (by omega),
    fun k => Int.lt_of_lt_of_le (h.2 k) (by omega)⟩

/-- The comparison stops at the first difference, or at the limit. -/
theorem matchLength_spec (input : List UInt8) (candidate position maximumLength length : Nat)
    (hlen : length ≤ maximumLength) (hend : position + maximumLength ≤ input.length)
    (hsame : ∀ k < length, input.getD (candidate + k) default = input.getD (position + k) default) :
    matchLength input candidate position maximumLength length ≤ maximumLength ∧
      MatchAt input candidate position
        (matchLength input candidate position maximumLength length) := by
  fun_induction matchLength input candidate position maximumLength length with
  | case1 length h ih =>
      refine ih (by omega) (fun k hk => ?_)
      rcases Nat.lt_succ_iff_lt_or_eq.mp hk with hold | rfl
      · exact hsame k hold
      · exact h.2
  | case2 length h => exact ⟨hlen, by omega, hsame⟩

/-- A length and a distance that stand for a match before `position`. -/
def GoodMatch (input : List UInt8) (position maximumLength : Nat) (best : Nat × Nat) : Prop :=
  best.1 = 0 ∨ ∃ candidate < position, best.2 = position - candidate ∧ best.2 ≤ 65535 ∧
    best.1 ≤ maximumLength ∧ MatchAt input candidate position best.1

/-- Whatever the chains hold, the search ends with a match that has been compared. -/
theorem goodMatch_findMatch {input : List UInt8} {previous : Nat → Int}
    {position maximumLength : Nat} (hend : position + maximumLength ≤ input.length)
    (hprevious : ∀ k, previous k < position) (attempts : Nat) :
    ∀ {candidate : Int} {bestLength bestDistance : Nat}, candidate < position →
      GoodMatch input position maximumLength (bestLength, bestDistance) →
      GoodMatch input position maximumLength
        (findMatch input previous position maximumLength attempts candidate bestLength
          bestDistance) := by
  induction attempts with
  | zero => intro candidate bestLength bestDistance _ hbest; exact hbest
  | succ attempts ih =>
      intro candidate bestLength bestDistance hcandidate hbest
      rw [findMatch]
      dsimp only
      split_ifs with hnear hlonger hfull
      · obtain ⟨hle, hmatch⟩ := matchLength_spec input candidate.toNat position maximumLength 0
          (Nat.zero_le _) hend (fun k hk => absurd hk (Nat.not_lt_zero k))
        exact .inr ⟨candidate.toNat, by omega, rfl, by dsimp only; omega, hle, hmatch⟩
      · obtain ⟨hle, hmatch⟩ := matchLength_spec input candidate.toNat position maximumLength 0
          (Nat.zero_le _) hend (fun k hk => absurd hk (Nat.not_lt_zero k))
        exact ih (hprevious _)
          (.inr ⟨candidate.toNat, by omega, rfl, by dsimp only; omega, hle, hmatch⟩)
      · exact ih (hprevious _) hbest
      · exact hbest

theorem goodMatch_bestMatch {input : List UInt8} {blockEnd : Nat} {c : Compressor}
    (hchains : c.chains.Below c.position) (hle : c.position ≤ blockEnd)
    (hend : blockEnd ≤ input.length) :
    GoodMatch input c.position (min (blockEnd - c.position) 130) (bestMatch input blockEnd c) := by
  have hmin : (if blockEnd - c.position > 130 then 130 else blockEnd - c.position)
      = min (blockEnd - c.position) 130 := by
    split_ifs <;> omega
  unfold bestMatch
  dsimp only
  rw [hmin]
  split_ifs with hlong
  · exact goodMatch_findMatch (by omega) hchains.2 64 (hchains.1 _) (.inl rfl)
  · exact .inl rfl

/-! ## What is written -/

/-- The bytes written since `packed₀` are tokens that make, with the literals not yet written, the
    input up to the position. -/
def Emitted (input : List UInt8) (start : Nat) (packed₀ : List UInt8) (c : Compressor) : Prop :=
  ∃ ts, c.packed = packed₀ ++ bytesAll ts ∧ ValidAll (input.take start) ts ∧
    expandAll (input.take start) ts ++ c.literals = input.take c.position

/-- One more token. -/
theorem Emitted.token {input : List UInt8} {start : Nat} {packed₀ : List UInt8} {c c' : Compressor}
    (h : Emitted input start packed₀ c) (hnone : c.literals = []) {t : Token}
    (hvalid : t.Valid (input.take c.position))
    (hexpand : t.expand (input.take c.position) ++ c'.literals = input.take c'.position)
    (hpacked : c'.packed = c.packed ++ t.bytes) : Emitted input start packed₀ c' := by
  obtain ⟨ts, hbytes, hvalids, htext⟩ := h
  rw [hnone, List.append_nil] at htext
  refine ⟨ts ++ [t], ?_, ?_, ?_⟩
  · rw [hpacked, hbytes, bytesAll_append, List.append_assoc]
    simp [bytesAll]
  · rw [validAll_append, htext]
    exact ⟨hvalids, hvalid, trivial⟩
  · rw [expandAll_append, htext]
    exact hexpand

/-- A run of literals becomes a token. -/
theorem Emitted.literals {input : List UInt8} {start : Nat} {packed₀ : List UInt8}
    {c c' : Compressor} (h : Emitted input start packed₀ c) (hpos : 0 < c.literals.length)
    (hle : c.literals.length ≤ 128)
    (hpacked : c'.packed = c.packed ++ (UInt8.ofNat (c.literals.length - 1) :: c.literals))
    (hliterals : c'.literals = []) (hposition : c'.position = c.position) :
    Emitted input start packed₀ c' := by
  obtain ⟨ts, hbytes, hvalids, htext⟩ := h
  refine ⟨ts ++ [.literals c.literals], ?_, ?_, ?_⟩
  · rw [hpacked, hbytes, bytesAll_append, List.append_assoc]
    simp [bytesAll, Token.bytes]
  · rw [validAll_append]
    exact ⟨hvalids, ⟨hpos, hle⟩, trivial⟩
  · rw [expandAll_append, hliterals, hposition, ← htext, List.append_nil]
    rfl

theorem Emitted.flush {input : List UInt8} {start : Nat} {packed₀ : List UInt8} {c : Compressor}
    (h : Emitted input start packed₀ c) (hle : c.literals.length ≤ 128) :
    Emitted input start packed₀ (flushLiterals c) ∧ (flushLiterals c).literals = [] := by
  unfold flushLiterals
  split_ifs with hsome
  · exact ⟨h.literals (by omega) hle rfl rfl rfl, rfl⟩
  · have hnone : c.literals = [] := List.eq_nil_of_length_eq_zero (by omega)
    exact ⟨by rw [← hnone]; exact h, rfl⟩

/-- The invariant of the inner loop. -/
structure Compressing (input : List UInt8) (start : Nat) (packed₀ : List UInt8) (c : Compressor) :
    Prop where
  emitted : Emitted input start packed₀ c
  literals_lt : c.literals.length < 128
  chains : c.chains.Below c.position

theorem Compressing.emitMatch {input : List UInt8} {start : Nat} {packed₀ : List UInt8}
    {c : Compressor} (h : Compressing input start packed₀ c) {length distance candidate : Nat}
    (hcandidate : candidate < c.position) (hdistance : distance = c.position - candidate)
    (hnear : distance ≤ 65535) (hlength : 4 ≤ length ∧ length ≤ 130)
    (hmatch : MatchAt input candidate c.position length) :
    Compressing input start packed₀ (emitMatch input c length distance) := by
  obtain ⟨hflushed, hnone⟩ := h.emitted.flush (Nat.le_of_lt h.literals_lt)
  have hposition := flushLiterals_position c
  have htake : (input.take c.position).length = c.position := by
    rw [List.length_take]
    have := hmatch.1
    omega
  refine ⟨hflushed.token (t := .copy length distance) hnone ?_ ?_ ?_, ?_, ?_⟩
  · rw [hposition]
    exact ⟨⟨by omega, hlength.2⟩, by omega, by omega, by omega⟩
  · simp only [Dsp.emitMatch, hnone, hposition, List.append_nil, Token.expand, hdistance]
    exact copyMatch_take input length candidate c.position hcandidate hmatch
  · have hcontrol : (0x80 ||| (length - 3) : Nat) = 0x80 + (length - 3) := by
      have := Nat.two_pow_add_eq_or_of_lt (i := 7) (b := length - 3) (by omega) 1
      simpa using this.symm
    simp only [Dsp.emitMatch, Token.bytes, hcontrol]
  · simp only [Dsp.emitMatch, hnone]
    decide
  · simp only [Dsp.emitMatch, hposition, flushLiterals_chains]
    refine (h.chains.mono (Nat.le_add_right _ _)).insertAll _ (fun offset hoffset => ?_)
    have := (List.mem_range'_1.mp hoffset).2
    omega

theorem Compressing.emitLiteral {input : List UInt8} {start : Nat} {packed₀ : List UInt8}
    {c : Compressor} (h : Compressing input start packed₀ c) (hlt : c.position < input.length) :
    Compressing input start packed₀ (emitLiteral input c) := by
  have hchains : (insert input c.chains c.position).Below (c.position + 1) :=
    (h.chains.mono (Nat.le_succ _)).insert (Nat.lt_succ_self _)
  -- the literals with the new one, before they may be written
  have hkept : Emitted input start packed₀ { c with
      literals := c.literals ++ [vec input c.position]
      chains := insert input c.chains c.position
      position := c.position + 1 } := by
    obtain ⟨ts, hbytes, hvalids, htext⟩ := h.emitted
    refine ⟨ts, hbytes, hvalids, ?_⟩
    rw [← List.append_assoc, htext, List.take_add_one, List.getElem?_eq_getElem hlt]
    simp [vec, List.getElem?_eq_getElem hlt]
  unfold Dsp.emitLiteral
  dsimp only
  split_ifs with hfull
  · refine ⟨hkept.literals (by simp) (Nat.le_of_eq hfull) ?_ rfl rfl,
      Nat.zero_lt_succ 127, hchains⟩
    simp only [hfull]
    rfl
  · have := h.literals_lt
    refine ⟨hkept, ?_, hchains⟩
    simp only [List.length_append, List.length_singleton] at hfull ⊢
    omega

/-- One pass of the inner loop; it does not leave the block. -/
theorem Compressing.step {input : List UInt8} {start blockEnd : Nat} {packed₀ : List UInt8}
    {c : Compressor} (h : Compressing input start packed₀ c) (hlt : c.position < blockEnd)
    (hend : blockEnd ≤ input.length) :
    Compressing input start packed₀ (compressStep input blockEnd c) ∧
      (compressStep input blockEnd c).position ≤ blockEnd := by
  have hbest := goodMatch_bestMatch h.chains (Nat.le_of_lt hlt) hend
  unfold compressStep
  dsimp only
  split_ifs with hlong
  · rcases hbest with hzero | ⟨candidate, hcandidate, hdistance, hnear, hmax, hmatch⟩
    · omega
    · refine ⟨h.emitMatch hcandidate hdistance hnear ⟨hlong, by omega⟩ hmatch, ?_⟩
      simp only [Dsp.emitMatch, flushLiterals_position]
      omega
  · rw [emitLiteral_position]
    exact ⟨h.emitLiteral (by omega), hlt⟩

theorem Compressing.loop {input : List UInt8} {start blockEnd : Nat} {packed₀ : List UInt8}
    {c : Compressor} (h : Compressing input start packed₀ c) (hle : c.position ≤ blockEnd)
    (hend : blockEnd ≤ input.length) :
    Compressing input start packed₀ (compressLoop input blockEnd c) ∧
      (compressLoop input blockEnd c).position = blockEnd := by
  fun_induction compressLoop input blockEnd c with
  | case1 c hlt ih =>
      obtain ⟨hstep, hposition⟩ := h.step hlt hend
      exact ih hstep hposition
  | case2 c hge => exact ⟨h, by omega⟩

/-- The invariant of the outer loop, with the blocks that are packed. -/
structure Packing (done : List (List UInt8)) (p : Packer) : Prop where
  packed : Packed done p.compressor.packed p.offsets p.sizes
  literals : p.compressor.literals = []
  position : p.compressor.position = done.flatten.length
  chains : p.compressor.chains.Below p.compressor.position

theorem Packing.block {input : List UInt8} {done : List (List UInt8)} {p : Packer}
    (h : Packing done p) {block : List UInt8} (hinput : done.flatten ++ block <+: input) :
    Packing (done ++ [block]) (compressBlock input p block) := by
  have hlen : (done.flatten ++ block).length ≤ input.length := hinput.length_le
  rw [List.length_append, ← h.position] at hlen
  have hstart : input.take p.compressor.position = done.flatten := by
    rw [h.position]
    exact (List.prefix_iff_eq_take.mp ((List.prefix_append _ _).trans hinput)).symm
  have hall : input.take (p.compressor.position + block.length) = done.flatten ++ block := by
    rw [h.position, ← List.length_append]
    exact (List.prefix_iff_eq_take.mp hinput).symm
  have hinit : Compressing input p.compressor.position p.compressor.packed p.compressor :=
    ⟨⟨[], by simp [bytesAll], trivial, by simp [expandAll, h.literals]⟩, by simp [h.literals],
      h.chains⟩
  obtain ⟨hloop, hposition⟩ := hinit.loop (Nat.le_add_right _ block.length) hlen
  obtain ⟨hflushed, hnone⟩ := hloop.emitted.flush (Nat.le_of_lt hloop.literals_lt)
  obtain ⟨ts, hbytes, hvalid, htext⟩ := hflushed
  rw [hnone, List.append_nil, flushLiterals_position, hposition, hall, hstart] at htext
  rw [hstart] at hvalid
  refine ⟨?_, hnone, ?_, ?_⟩
  · simp only [compressBlock]
    rw [hbytes]
    exact h.packed.push hvalid htext
  · simp only [compressBlock, flushLiterals_position]
    rw [hposition, h.position, List.flatten_append, List.length_append, List.flatten_singleton]
  · simp only [compressBlock, flushLiterals_position, flushLiterals_chains]
    exact hloop.chains

/-- **The packer writes valid tokens.** For every list of blocks, the packed data, the offsets and
    the sizes describe those blocks. -/
theorem compressBlocks_packed (blocks : List (List UInt8)) :
    Packed blocks (compressBlocks blocks).compressor.packed (compressBlocks blocks).offsets
      (compressBlocks blocks).sizes := by
  have hfold : ∀ (rest done : List (List UInt8)) (p : Packer), done ++ rest = blocks →
      Packing done p → Packing blocks (rest.foldl (compressBlock blocks.flatten) p) := by
    intro rest
    induction rest with
    | nil =>
        rintro done p rfl h
        simpa using h
    | cons block rest ih =>
        rintro done p hblocks h
        refine ih (done ++ [block]) _ (by simpa using hblocks) (h.block ?_)
        rw [← hblocks]
        exact ⟨rest.flatten, by simp⟩
  have hstart : Packing [] packerStart :=
    ⟨packed_nil, rfl, rfl, by simp [packerStart, Chains.Below]⟩
  exact (hfold blocks [] packerStart rfl hstart).packed

end Pmb887x.Dsp
