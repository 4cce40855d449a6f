import Mathlib.Data.List.GetD
import Mathlib.Data.List.ProdSigma
import Mathlib.Data.Int.Order.Lemmas
import Mathlib.Tactic.Linarith
import Pmb887x.Library.PerSurvivor

set_option autoImplicit false

/-! # The model of the equalizer (`equalizer-vectors.c`)

An add-compare-select step extends the eight kept paths by each of the eight symbols; the branch metric of an
extension is the distance of the received sample from what the last seven symbols should give, the six older
ones taken from the kept path itself. The soft values are differences between the best candidates with a bit
clear and with it set. All sums saturate.

What is kept for a symbol is always the distance of one symbol sequence (`modelEqualizer_follows`), and for
a channel that reaches one symbol back it is the least distance of all of them (`modelEqualizer_least`). -/

namespace Pmb887x.Dsp.Equalizer

open Library PerSurvivor

/-! ## The functions -/

/-- `dsp_hw_shared_memory` -/
abbrev SharedMemory := Nat → UInt16

def bparInputOffset : Nat := 0x0200
def rxInputOffset : Nat := 0x0280
def w2EmlInputOffset : Nat := 0x0190
def w1EplInputOffset : Nat := 0x0130

/-- A word read as `int16_t`. -/
def int16At (memory : SharedMemory) (offset : Nat) : Int := (memory offset).toInt16.toInt

def modelSaturateInt16 (value : Int) : Int :=
  if value > 2 ^ 15 - 1 then 2 ^ 15 - 1
  else if value < -2 ^ 15 then -2 ^ 15
  else value

/-- The symbol that a group of the branch parameters is taken for. -/
def selector (path next group : Nat) : Nat :=
  if group = 0 then next
  else if group < 6 then path >>> ((group - 1) * 3) &&& 7
  else if path >>> 15 ≠ 0 then 7 else 0

/-- `real` for part 0 and `imaginary` for part 1, behind the loop over the groups. -/
def residual (memory : SharedMemory) (path next timestamp part : Nat) : Int :=
  (List.range 7).foldl
    (fun value group => modelSaturateInt16
      (value + int16At memory (bparInputOffset + (group * 8 + selector path next group) * 2 + part)))
    (int16At memory (rxInputOffset + timestamp * 2 + part))

def modelBranchMetric (memory : SharedMemory) (path next timestamp : Nat) : Nat :=
  let real := residual memory path next timestamp 0
  let imaginary := residual memory path next timestamp 1
  let distance := (real * real).toNat + (imaginary * imaginary).toNat
  (distance >>> 11) &&& 0x7FFF

def modelArithmeticShiftRight (value : Int) (shift : Nat) : Int :=
  if value ≥ 0 then value >>> shift else -((-value + (2 ^ shift : Nat) - 1) >>> shift)

/-- One above the highest bit of `first_stage`. -/
def firstStageShift (firstStage : Nat) : Nat :=
  (List.range 8).foldl (fun shift bit => if firstStage &&& 2 ^ bit ≠ 0 then bit + 1 else shift) 0

def softLimit (scale : Nat) : Int :=
  let saturation := scale &&& 0x1E00
  if saturation = 0x0200 then 15 else if saturation = 0x0400 then 31 else if saturation = 0x0800 then 63 else 127

/-- `scaled` behind the first stage -/
def firstStage (scale : Nat) (value : Int) : Int :=
  let firstStage := scale &&& 0x00FF
  if firstStage = 0x00FF then value * 2
  else if firstStage ≠ 0 then modelArithmeticShiftRight value (firstStageShift firstStage)
  else value

/-- `shifted` -/
def secondStage (scale : Nat) (scaled : Int) : Int :=
  if scale &&& 0x0100 ≠ 0 then modelArithmeticShiftRight scaled 3 else scaled

/-- A fraction of `shifted` that a bit of the scale adds. -/
def fraction (scale mask shift : Nat) (shifted : Int) : Int :=
  if scale &&& mask ≠ 0 then modelArithmeticShiftRight shifted shift else 0

def clip (limit scaled : Int) : Int :=
  let scaled := if scaled > limit then limit else scaled
  if scaled < -limit then -limit else scaled

/-- The source stores the value as `uint16_t`. -/
def modelScaleSoft (value : Int) (scale : Nat) : Int :=
  let shifted := secondStage scale (firstStage scale value)
  clip (softLimit scale)
    (shifted + fraction scale 0x2000 3 shifted + fraction scale 0x4000 2 shifted + fraction scale 0x8000 1 shifted)

/-- `soft` has the values of all steps; the array of the source has room for those of eight. -/
structure EqualizerModel where
  metrics : List Int
  paths : List Nat
  soft : List Int

/-- `candidates[next][predecessor]` -/
def candidate (memory : SharedMemory) (timestamp : Nat) (model : EqualizerModel) (next predecessor : Nat) : Int :=
  modelSaturateInt16 (model.metrics.getD predecessor 0
    + modelBranchMetric memory (model.paths.getD predecessor 0) next timestamp)

def bestPredecessor (candidates : Nat → Int) : Nat :=
  (List.range 8).foldl
    (fun best predecessor => if candidates predecessor < candidates best then predecessor else best) 0

/-- `minimum[hypothesis]` behind the loops over `next` and `predecessor` -/
def minimum (candidates : Nat → Nat → Int) (bit hypothesis : Nat) : Int :=
  ((List.range 8) ×ˢ (List.range 8)).foldl
    (fun minimum pair =>
      if pair.2 >>> bit &&& 1 = hypothesis ∧ candidates pair.1 pair.2 < minimum then candidates pair.1 pair.2
      else minimum)
    (2 ^ 15 - 1)

/-- The conversion to `int16_t` when the difference is passed on. -/
def toInt16 (value : Int) : Int := value.bmod (2 ^ 16)

def softValue (candidates : Nat → Nat → Int) (scale bit : Nat) : Int :=
  modelScaleSoft (toInt16 (minimum candidates bit 1 - minimum candidates bit 0)) scale

def pathShift (path next : Nat) : Nat := (path <<< 3 ||| next) % 2 ^ 16

def modelEqualizerStep (memory : SharedMemory) (scale : Nat) (model : EqualizerModel) (timestamp : Nat) :
    EqualizerModel :=
  let candidates := candidate memory timestamp model
  { metrics := (List.range 8).map fun next => candidates next (bestPredecessor (candidates next))
    paths := (List.range 8).map fun next => pathShift (model.paths.getD (bestPredecessor (candidates next)) 0) next
    soft := model.soft ++ (List.range 3).map (softValue candidates scale) ++ [0] }

/-- The model of `check_multistep_model` before the first step. -/
def modelStart (memory : SharedMemory) : EqualizerModel where
  metrics := (List.range 8).map fun state => int16At memory (w2EmlInputOffset + state)
  paths := (List.range 8).map fun state => (memory (w1EplInputOffset + state)).toNat
  soft := []

def modelEqualizer (memory : SharedMemory) (scale count : Nat) : EqualizerModel :=
  (List.range count).foldl (modelEqualizerStep memory scale) (modelStart memory)

/-! ## Saturation and the choice of a predecessor -/

theorem modelSaturateInt16_eq {value : Int} (h : -2 ^ 15 ≤ value) :
    modelSaturateInt16 value = min value (2 ^ 15 - 1) := by
  rw [modelSaturateInt16]
  split_ifs with hhigh hlow
  · rw [min_eq_right hhigh.le]
  · omega
  · rw [min_eq_left (by omega)]

theorem modelSaturateInt16_bounds (value : Int) :
    -2 ^ 15 ≤ modelSaturateInt16 value ∧ modelSaturateInt16 value ≤ 2 ^ 15 - 1 := by
  rw [modelSaturateInt16]
  split_ifs <;> omega

theorem modelSaturateInt16_of_bounds {value : Int} (hlow : -2 ^ 15 ≤ value) (hhigh : value ≤ 2 ^ 15 - 1) :
    modelSaturateInt16 value = value := by
  rw [modelSaturateInt16_eq hlow, min_eq_left hhigh]

theorem modelSaturateInt16_mono {value value' : Int} (h : value ≤ value') :
    modelSaturateInt16 value ≤ modelSaturateInt16 value' := by
  rw [modelSaturateInt16, modelSaturateInt16]
  split_ifs <;> omega

theorem int16At_bounds (memory : SharedMemory) (offset : Nat) :
    -2 ^ 15 ≤ int16At memory offset ∧ int16At memory offset ≤ 2 ^ 15 - 1 := by
  have hlow := (memory offset).toInt16.le_toInt
  have hhigh := (memory offset).toInt16.toInt_lt
  rw [int16At]
  omega

/-- The first index of a least value. -/
theorem foldl_least {β : Type} (f : β → Int) (l : List β) (best : β) :
    let found := l.foldl (fun best p => if f p < f best then p else best) best
    (found = best ∨ found ∈ l) ∧ f found ≤ f best ∧ ∀ p ∈ l, f found ≤ f p := by
  induction l generalizing best with
  | nil => exact ⟨Or.inl rfl, le_refl _, fun p hp => absurd hp List.not_mem_nil⟩
  | cons p l ih =>
      obtain ⟨hmem, hbest, hall⟩ := ih (if f p < f best then p else best)
      rw [List.foldl_cons]
      by_cases hlt : f p < f best
      · rw [if_pos hlt] at hmem hbest hall ⊢
        refine ⟨Or.inr (List.mem_cons.mpr hmem), hbest.trans hlt.le, fun q hq => ?_⟩
        rcases List.mem_cons.mp hq with rfl | hq
        · exact hbest
        · exact hall q hq
      · rw [if_neg hlt] at hmem hbest hall ⊢
        refine ⟨hmem.imp_right (List.mem_cons_of_mem p), hbest, fun q hq => ?_⟩
        rcases List.mem_cons.mp hq with rfl | hq
        · exact hbest.trans (Int.not_lt.mp hlt)
        · exact hall q hq

theorem bestPredecessor_spec (candidates : Nat → Int) :
    bestPredecessor candidates < 8 ∧ ∀ q < 8, candidates (bestPredecessor candidates) ≤ candidates q := by
  obtain ⟨hmem, -, hall⟩ := foldl_least candidates (List.range 8) 0
  refine ⟨?_, fun q hq => hall q (List.mem_range.mpr hq)⟩
  rcases hmem with h | h
  · rw [bestPredecessor, h]
    decide
  · exact List.mem_range.mp h

/-- The running minimum over the values that count. -/
theorem foldl_minimum {β : Type} (counts : β → Prop) [DecidablePred counts] (f : β → Int) (l : List β)
    (m : Int) :
    let found := l.foldl (fun m x => if counts x ∧ f x < m then f x else m) m
    (found = m ∨ ∃ x ∈ l, counts x ∧ found = f x) ∧ found ≤ m ∧ ∀ x ∈ l, counts x → found ≤ f x := by
  induction l generalizing m with
  | nil => exact ⟨Or.inl rfl, le_refl _, fun x hx => absurd hx List.not_mem_nil⟩
  | cons x l ih =>
      obtain ⟨hmem, hle, hall⟩ := ih (if counts x ∧ f x < m then f x else m)
      rw [List.foldl_cons]
      by_cases hlt : counts x ∧ f x < m
      · rw [if_pos hlt] at hmem hle hall ⊢
        refine ⟨Or.inr ?_, hle.trans hlt.2.le, fun y hy hcounts => ?_⟩
        · rcases hmem with h | ⟨y, hy, h⟩
          · exact ⟨x, List.mem_cons_self, hlt.1, h⟩
          · exact ⟨y, List.mem_cons_of_mem x hy, h⟩
        · rcases List.mem_cons.mp hy with rfl | hy
          · exact hle
          · exact hall y hy hcounts
      · rw [if_neg hlt] at hmem hle hall ⊢
        refine ⟨hmem.imp_right fun ⟨y, hy, h⟩ => ⟨y, List.mem_cons_of_mem x hy, h⟩, hle, fun y hy hcounts => ?_⟩
        rcases List.mem_cons.mp hy with rfl | hy
        · exact hle.trans (Int.not_lt.mp fun h => hlt ⟨hcounts, h⟩)
        · exact hall y hy hcounts

theorem minimum_isLeast (candidates : Nat → Nat → Int) (hbound : ∀ next p, candidates next p ≤ 2 ^ 15 - 1)
    {bit hypothesis : Nat} (hsome : ∃ p < 8, p >>> bit &&& 1 = hypothesis) :
    IsLeast {m | ∃ next < 8, ∃ p < 8, p >>> bit &&& 1 = hypothesis ∧ m = candidates next p}
      (minimum candidates bit hypothesis) := by
  obtain ⟨hmem, -, hall⟩ := foldl_minimum (fun pair : Nat × Nat => pair.2 >>> bit &&& 1 = hypothesis)
    (fun pair => candidates pair.1 pair.2) ((List.range 8) ×ˢ (List.range 8)) (2 ^ 15 - 1)
  have hle : ∀ next < 8, ∀ p < 8, p >>> bit &&& 1 = hypothesis →
      minimum candidates bit hypothesis ≤ candidates next p := fun next hnext p hp hbit =>
    hall (next, p) (List.mem_product.mpr ⟨List.mem_range.mpr hnext, List.mem_range.mpr hp⟩) hbit
  refine ⟨?_, ?_⟩
  · rcases hmem with h | ⟨pair, hpair, hbit, h⟩
    · obtain ⟨p, hp, hbit⟩ := hsome
      refine ⟨0, by decide, p, hp, hbit, le_antisymm (hle 0 (by decide) p hp hbit) ?_⟩
      rw [minimum, h]
      exact hbound 0 p
    · obtain ⟨hnext, hp⟩ := List.mem_product.mp hpair
      exact ⟨pair.1, List.mem_range.mp hnext, pair.2, List.mem_range.mp hp, hbit, h⟩
  · rintro m ⟨next, hnext, p, hp, hbit, rfl⟩
    exact hle next hnext p hp hbit

/-! ## Sequences of symbols -/

/-- The metric and the path register behind one more symbol. -/
def extend (memory : SharedMemory) (timestamp : Nat) (s : Int × Nat) (next : Fin 8) : Int × Nat :=
  (modelSaturateInt16 (s.1 + modelBranchMetric memory s.2 next timestamp), pathShift s.2 next)

/-- The metric and the path register kept for a symbol. -/
def kept (model : EqualizerModel) (symbol : Fin 8) : Int × Nat :=
  (model.metrics.getD symbol 0, model.paths.getD symbol 0)

def extensions (memory : SharedMemory) (count : Nat) : List (Int × Nat → Fin 8 → Int × Nat) :=
  (List.range count).map (extend memory)

theorem getD_map_range {β : Type} (f : Nat → β) {n i : Nat} (h : i < n) (d : β) :
    ((List.range n).map f).getD i d = f i := by
  rw [List.getD_eq_getElem?_getD, List.getElem?_map, List.getElem?_range h]
  rfl

/-- One step keeps an extension of a kept path with the least metric. -/
theorem kept_modelEqualizerStep (memory : SharedMemory) (scale : Nat) (model : EqualizerModel) (timestamp : Nat)
    (next : Fin 8) :
    ∃ p : Fin 8, kept (modelEqualizerStep memory scale model timestamp) next
        = extend memory timestamp (kept model p) next
      ∧ ∀ q : Fin 8, (kept (modelEqualizerStep memory scale model timestamp) next).1
        ≤ (extend memory timestamp (kept model q) next).1 := by
  obtain ⟨hlt, hbest⟩ := bestPredecessor_spec (candidate memory timestamp model next)
  have hkept : kept (modelEqualizerStep memory scale model timestamp) next
      = extend memory timestamp (kept model ⟨_, hlt⟩) next := by
    rw [kept, modelEqualizerStep, getD_map_range _ next.isLt, getD_map_range _ next.isLt]
    rfl
  refine ⟨⟨_, hlt⟩, hkept, fun q => ?_⟩
  rw [hkept]
  exact hbest q q.isLt

/-! ## A channel that reaches one symbol back -/

/-- The branch parameters of the older symbols are zero. -/
def TwoSymbols (memory : SharedMemory) : Prop :=
  ∀ group < 7, 2 ≤ group → ∀ symbol < 8, ∀ part < 2,
    memory (bparInputOffset + (group * 8 + symbol) * 2 + part) = 0

/-- No worse, and the same newest symbol in the path register. -/
def NoWorse (s s' : Int × Nat) : Prop := s.1 ≤ s'.1 ∧ s.2 % 8 = s'.2 % 8

theorem pathShift_mod {path next : Nat} (h : next < 8) : pathShift path next % 8 = next := by
  have hor : path <<< 3 ||| next = path <<< 3 + next := (Nat.shiftLeft_add_eq_or_of_lt h path).symm
  rw [pathShift, hor, Nat.shiftLeft_eq]
  omega

theorem selector_lt {path next group : Nat} (h : next < 8) : selector path next group < 8 := by
  rw [selector]
  split_ifs
  · exact h
  · exact Nat.and_lt_two_pow _ (show 7 < 2 ^ 3 by decide)
  · decide
  · decide

theorem selector_one (path next : Nat) : selector path next 1 = path % 8 := by
  rw [selector, if_neg (by decide), if_pos (by decide)]
  exact Nat.and_two_pow_sub_one_eq_mod path 3

/-- Only the two newest symbols have a part in the residual. -/
theorem residual_twoSymbols {memory : SharedMemory} (hmemory : TwoSymbols memory) (path : Nat) {next : Nat}
    (hnext : next < 8) (timestamp : Nat) {part : Nat} (hpart : part < 2) :
    residual memory path next timestamp part
      = modelSaturateInt16 (modelSaturateInt16 (int16At memory (rxInputOffset + timestamp * 2 + part)
          + int16At memory (bparInputOffset + (0 * 8 + next) * 2 + part))
          + int16At memory (bparInputOffset + (1 * 8 + path % 8) * 2 + part)) := by
  have hzero : ∀ group < 7, 2 ≤ group → ∀ value, -2 ^ 15 ≤ value → value ≤ 2 ^ 15 - 1 →
      modelSaturateInt16 (value
        + int16At memory (bparInputOffset + (group * 8 + selector path next group) * 2 + part)) = value := by
    intro group hgroup hold value hlow hhigh
    rw [int16At, hmemory group hgroup hold _ (selector_lt hnext) part hpart]
    rw [show (0 : UInt16).toInt16.toInt = 0 from rfl, Int.add_zero]
    exact modelSaturateInt16_of_bounds hlow hhigh
  rw [residual, show List.range 7 = [0, 1, 2, 3, 4, 5, 6] from rfl]
  simp only [List.foldl_cons, List.foldl_nil]
  rw [selector_one, show selector path next 0 = next from rfl]
  generalize hvalue : modelSaturateInt16 (modelSaturateInt16 (int16At memory (rxInputOffset + timestamp * 2 + part)
    + int16At memory (bparInputOffset + (0 * 8 + next) * 2 + part))
    + int16At memory (bparInputOffset + (1 * 8 + path % 8) * 2 + part)) = value
  obtain ⟨hlow, hhigh⟩ : -2 ^ 15 ≤ value ∧ value ≤ 2 ^ 15 - 1 := by
    rw [← hvalue]
    exact modelSaturateInt16_bounds _
  rw [hzero 2 (by decide) (by decide) value hlow hhigh, hzero 3 (by decide) (by decide) value hlow hhigh,
    hzero 4 (by decide) (by decide) value hlow hhigh, hzero 5 (by decide) (by decide) value hlow hhigh,
    hzero 6 (by decide) (by decide) value hlow hhigh]

theorem modelBranchMetric_twoSymbols {memory : SharedMemory} (hmemory : TwoSymbols memory) {path path' : Nat}
    (h : path % 8 = path' % 8) {next : Nat} (hnext : next < 8) (timestamp : Nat) :
    modelBranchMetric memory path next timestamp = modelBranchMetric memory path' next timestamp := by
  rw [modelBranchMetric, modelBranchMetric, residual_twoSymbols hmemory path hnext timestamp (by decide),
    residual_twoSymbols hmemory path hnext timestamp (by decide),
    residual_twoSymbols hmemory path' hnext timestamp (by decide),
    residual_twoSymbols hmemory path' hnext timestamp (by decide), h]

/-- There an extension keeps the order. -/
theorem extend_noWorse {memory : SharedMemory} (hmemory : TwoSymbols memory) (timestamp : Nat)
    {s s' : Int × Nat} (next : Fin 8) (h : NoWorse s s') :
    NoWorse (extend memory timestamp s next) (extend memory timestamp s' next) := by
  refine ⟨modelSaturateInt16_mono ?_, ?_⟩
  · rw [modelBranchMetric_twoSymbols hmemory h.2 next.isLt]
    exact Int.add_le_add_right h.1 _
  · rw [extend, extend, pathShift_mod next.isLt, pathShift_mod next.isLt]

/-! ## What is kept -/

/-- Whatever the order by metric and newest symbol is used for, each step selects by it. -/
theorem modelEqualizer_keeps (memory : SharedMemory) (scale count : Nat) :
    Keeps NoWorse (extensions memory count) (kept (modelStart memory)) (kept (modelEqualizer memory scale count)) := by
  induction count with
  | zero => exact Keeps.nil _
  | succ count ih =>
      rw [extensions, modelEqualizer, List.range_succ, List.map_append, List.foldl_append]
      refine Keeps.snoc ih fun next => ?_
      obtain ⟨p, hkept, hbest⟩ :=
        kept_modelEqualizerStep memory scale (modelEqualizer memory scale count) count next
      refine ⟨p, hkept, fun q => ⟨hbest q, ?_⟩⟩
      rw [List.foldl_cons, List.foldl_nil, ← modelEqualizer, hkept, extend, extend, pathShift_mod next.isLt,
        pathShift_mod next.isLt]

/-- The sum of the branch metrics along a sequence, from a timestamp on. -/
def distance (memory : SharedMemory) : (timestamp path : Nat) → List (Fin 8) → Nat
  | _, _, [] => 0
  | timestamp, path, next :: symbols =>
      modelBranchMetric memory path next timestamp + distance memory (timestamp + 1) (pathShift path next) symbols

/-- The path register behind a sequence. -/
def register (path : Nat) (symbols : List (Fin 8)) : Nat :=
  symbols.foldl (fun path (next : Fin 8) => pathShift path next) path

/-- What a sequence behind `first` costs: the metric the symbol `first` starts with and the distance, saturated. -/
def cost (memory : SharedMemory) (first : Fin 8) (symbols : List (Fin 8)) : Int :=
  min (int16At memory (w2EmlInputOffset + first)
    + distance memory 0 (memory (w1EplInputOffset + first)).toNat symbols) (2 ^ 15 - 1)

/-- Saturating at every step is the same as saturating the sum. -/
theorem walk_eq (memory : SharedMemory) {metric : Int} (hlow : -2 ^ 15 ≤ metric) (hhigh : metric ≤ 2 ^ 15 - 1)
    (path : Nat) (symbols : List (Fin 8)) (timestamp : Nat) :
    walk (metric, path) ((List.range' timestamp symbols.length).map (extend memory)) symbols
      = (min (metric + distance memory timestamp path symbols) (2 ^ 15 - 1), register path symbols) := by
  induction symbols generalizing metric path timestamp with
  | nil =>
      rw [List.length_nil, List.range'_zero, List.map_nil, walk_nil, distance, Int.natCast_zero, Int.add_zero,
        min_eq_left hhigh]
      rfl
  | cons next symbols ih =>
      have hmetric : modelSaturateInt16 (metric + modelBranchMetric memory path next timestamp)
          = min (metric + modelBranchMetric memory path next timestamp) (2 ^ 15 - 1) :=
        modelSaturateInt16_eq (by omega)
      rw [List.length_cons, List.range'_succ, List.map_cons, walk, extend, hmetric, ih (by omega) (by omega),
        distance, register, register, List.foldl_cons]
      congr 1
      push_cast
      omega

theorem length_extensions (memory : SharedMemory) (count : Nat) : (extensions memory count).length = count := by
  rw [extensions, List.length_map, List.length_range]

theorem walk_kept_modelStart (memory : SharedMemory) (first : Fin 8) {symbols : List (Fin 8)} {count : Nat}
    (h : symbols.length = count) :
    walk (kept (modelStart memory) first) (extensions memory count) symbols
      = (cost memory first symbols, register (memory (w1EplInputOffset + first)).toNat symbols) := by
  obtain ⟨hlow, hhigh⟩ := int16At_bounds memory (w2EmlInputOffset + first)
  have hkept : kept (modelStart memory) first
      = (int16At memory (w2EmlInputOffset + first), (memory (w1EplInputOffset + first)).toNat) := by
    rw [kept, modelStart, getD_map_range _ first.isLt, getD_map_range _ first.isLt]
  rw [hkept, extensions, ← h, List.range_eq_range', walk_eq memory hlow hhigh]
  rfl

/-- The metric and the path register kept for a symbol are those of one symbol sequence that ends in it. -/
theorem modelEqualizer_follows (memory : SharedMemory) (scale count : Nat) (symbol : Fin 8) :
    ∃ first symbols, symbols.length = count ∧ lastSymbol first symbols = symbol
      ∧ kept (modelEqualizer memory scale count) symbol
        = (cost memory first symbols, register (memory (w1EplInputOffset + first)).toNat symbols) := by
  obtain ⟨first, symbols, hlength, hlast, hkept⟩ := (modelEqualizer_keeps memory scale count).follows symbol
  rw [length_extensions] at hlength
  exact ⟨first, symbols, hlength, hlast, hkept.trans (walk_kept_modelStart memory first hlength)⟩

/-- With two symbols what is kept is no worse than any sequence with the same end. -/
theorem modelEqualizer_noWorse {memory : SharedMemory} (hmemory : TwoSymbols memory) (scale : Nat) (first : Fin 8)
    (symbols : List (Fin 8)) :
    NoWorse (kept (modelEqualizer memory scale symbols.length) (lastSymbol first symbols))
      (cost memory first symbols, register (memory (w1EplInputOffset + first)).toNat symbols) := by
  have hmono : ∀ f ∈ extensions memory symbols.length, ∀ {s s' : Int × Nat} (i : Fin 8),
      NoWorse s s' → NoWorse (f s i) (f s' i) := by
    intro f hf s s' i h
    obtain ⟨timestamp, -, rfl⟩ := List.mem_map.mp hf
    exact extend_noWorse hmemory timestamp i h
  have hle := (modelEqualizer_keeps memory scale symbols.length).le_walk (fun s => ⟨le_refl _, rfl⟩)
    (fun h h' => ⟨h.1.trans h'.1, h.2.trans h'.2⟩) hmono first (length_extensions memory _).symm
  rwa [walk_kept_modelStart memory first rfl] at hle

/-- **The survivors of the equalizer.** Behind any number of steps, and whatever the memory holds, the metric and
    the path register kept for a symbol are the saturated distance and the symbols of one sequence that ends in
    it. For a channel that reaches one symbol back it is the least of all sequences with this end. -/
theorem modelEqualizer_survivors (memory : SharedMemory) (scale count : Nat) (symbol : Fin 8) :
    (∃ first symbols, symbols.length = count ∧ lastSymbol first symbols = symbol
      ∧ kept (modelEqualizer memory scale count) symbol
        = (cost memory first symbols, register (memory (w1EplInputOffset + first)).toNat symbols)) ∧
    (TwoSymbols memory → IsLeast
      {m | ∃ first symbols, symbols.length = count ∧ lastSymbol first symbols = symbol ∧ m = cost memory first symbols}
      (kept (modelEqualizer memory scale count) symbol).1) := by
  obtain ⟨first, symbols, hlength, hlast, hkept⟩ := modelEqualizer_follows memory scale count symbol
  refine ⟨⟨first, symbols, hlength, hlast, hkept⟩, fun hmemory => ⟨⟨first, symbols, hlength, hlast, ?_⟩, ?_⟩⟩
  · rw [hkept]
  · rintro m ⟨first, symbols, rfl, rfl, rfl⟩
    exact (modelEqualizer_noWorse hmemory scale first symbols).1

/-- A channel of this kind: the parameters of the groups 0 and 1, the samples and the metrics at the start are not
    zero. -/
def twoTaps : SharedMemory := fun offset =>
  if bparInputOffset + 32 ≤ offset ∧ offset < bparInputOffset + 112 then 0 else UInt16.ofNat (offset * 977 % 1024)

theorem twoSymbols_twoTaps : TwoSymbols twoTaps := by
  intro group hgroup holder symbol hsymbol part hpart
  rw [twoTaps, if_pos (by omega)]

/-- The least of all sequences of two symbols behind a first one that end in the symbol 3. -/
theorem modelEqualizer_survivors_twoTaps : IsLeast
    {m | ∃ first symbols, symbols.length = 2 ∧ lastSymbol first symbols = 3 ∧ m = cost twoTaps first symbols}
    2222 := by
  have hkept : (kept (modelEqualizer twoTaps 0 2) 3).1 = 2222 := by decide +kernel
  rw [← hkept]
  exact (modelEqualizer_survivors twoTaps 0 2 3).2 twoSymbols_twoTaps

/-! ## Soft values -/

/-- Both branches round down. -/
theorem modelArithmeticShiftRight_eq (value : Int) (shift : Nat) :
    modelArithmeticShiftRight value shift = value / (2 ^ shift : Nat) := by
  have hpos : (0 : Int) < (2 ^ shift : Nat) := Int.natCast_pos.mpr (Nat.two_pow_pos shift)
  rw [modelArithmeticShiftRight]
  split_ifs with hvalue
  · rw [Int.shiftRight_eq_div_pow]
  · rw [Int.shiftRight_eq_div_pow]
    generalize ((2 ^ shift : Nat) : Int) = d at hpos
    have hlow := Int.emod_nonneg value hpos.ne'
    have hhigh := Int.emod_lt_of_pos value hpos
    have hsplit : -value + d - 1 = (d - 1 - value % d) + d * -(value / d) := by
      linarith [Int.mul_ediv_add_emod value d]
    rw [hsplit, Int.add_mul_ediv_left _ _ hpos.ne', Int.ediv_eq_zero_of_lt (by omega) (by omega), Int.zero_add,
      Int.neg_neg]

theorem modelArithmeticShiftRight_mono {value value' : Int} (h : value ≤ value') (shift : Nat) :
    modelArithmeticShiftRight value shift ≤ modelArithmeticShiftRight value' shift := by
  rw [modelArithmeticShiftRight_eq, modelArithmeticShiftRight_eq]
  exact Int.ediv_le_ediv (Int.natCast_pos.mpr (Nat.two_pow_pos shift)) h

theorem modelArithmeticShiftRight_zero (shift : Nat) : modelArithmeticShiftRight 0 shift = 0 := by
  rw [modelArithmeticShiftRight_eq, Int.zero_ediv]

theorem firstStage_mono (scale : Nat) {value value' : Int} (h : value ≤ value') :
    firstStage scale value ≤ firstStage scale value' := by
  simp only [firstStage]
  split_ifs
  · omega
  · exact modelArithmeticShiftRight_mono h _
  · exact h

theorem firstStage_zero (scale : Nat) : firstStage scale 0 = 0 := by
  simp only [firstStage, modelArithmeticShiftRight_zero, Int.zero_mul, ite_self]

theorem secondStage_mono (scale : Nat) {value value' : Int} (h : value ≤ value') :
    secondStage scale value ≤ secondStage scale value' := by
  simp only [secondStage]
  split_ifs
  · exact modelArithmeticShiftRight_mono h _
  · exact h

theorem secondStage_zero (scale : Nat) : secondStage scale 0 = 0 := by
  simp only [secondStage, modelArithmeticShiftRight_zero, ite_self]

theorem fraction_mono (scale mask shift : Nat) {value value' : Int} (h : value ≤ value') :
    fraction scale mask shift value ≤ fraction scale mask shift value' := by
  simp only [fraction]
  split_ifs
  · exact modelArithmeticShiftRight_mono h _
  · exact le_refl _

theorem fraction_zero (scale mask shift : Nat) : fraction scale mask shift 0 = 0 := by
  simp only [fraction, modelArithmeticShiftRight_zero, ite_self]

theorem softLimit_pos (scale : Nat) : 0 < softLimit scale := by
  simp only [softLimit]
  split_ifs <;> decide

theorem clip_mono {limit : Int} (hlimit : 0 < limit) {value value' : Int} (h : value ≤ value') :
    clip limit value ≤ clip limit value' := by
  simp only [clip]
  split_ifs <;> omega

theorem clip_bounds {limit : Int} (hlimit : 0 < limit) (value : Int) :
    -limit ≤ clip limit value ∧ clip limit value ≤ limit := by
  simp only [clip]
  split_ifs <;> omega

/-- Every scale word keeps the order of the values. -/
theorem modelScaleSoft_mono (scale : Nat) {value value' : Int} (h : value ≤ value') :
    modelScaleSoft value scale ≤ modelScaleSoft value' scale := by
  have hshifted := secondStage_mono scale (firstStage_mono scale h)
  have h3 := fraction_mono scale 0x2000 3 hshifted
  have h2 := fraction_mono scale 0x4000 2 hshifted
  have h1 := fraction_mono scale 0x8000 1 hshifted
  exact clip_mono (softLimit_pos scale) (Int.add_le_add (Int.add_le_add (Int.add_le_add hshifted h3) h2) h1)

theorem modelScaleSoft_zero (scale : Nat) : modelScaleSoft 0 scale = 0 := by
  have hlimit := softLimit_pos scale
  simp only [modelScaleSoft, firstStage_zero, secondStage_zero, fraction_zero, clip]
  split_ifs <;> omega

theorem modelScaleSoft_bounds (value : Int) (scale : Nat) :
    -softLimit scale ≤ modelScaleSoft value scale ∧ modelScaleSoft value scale ≤ softLimit scale :=
  clip_bounds (softLimit_pos scale) _

/-- The scaling does not turn the sign. -/
theorem modelScaleSoft_pos {value : Int} {scale : Nat} (h : 0 < modelScaleSoft value scale) : 0 < value := by
  by_contra hle
  have hmono := modelScaleSoft_mono scale (Int.not_lt.mp hle)
  rw [modelScaleSoft_zero] at hmono
  omega

theorem modelScaleSoft_neg {value : Int} {scale : Nat} (h : modelScaleSoft value scale < 0) : value < 0 := by
  by_contra hle
  have hmono := modelScaleSoft_mono scale (Int.not_lt.mp hle)
  rw [modelScaleSoft_zero] at hmono
  omega

/-- What the sequences cost whose last symbol but one has this bit. -/
def costsWith (memory : SharedMemory) (timestamp bit hypothesis : Nat) : Set Int :=
  {m | ∃ first symbols next, symbols.length = timestamp ∧
    (lastSymbol first symbols).val >>> bit &&& 1 = hypothesis ∧ m = cost memory first (symbols ++ [next])}

theorem length_soft (memory : SharedMemory) (scale count : Nat) :
    (modelEqualizer memory scale count).soft.length = count * 4 := by
  induction count with
  | zero => rfl
  | succ count ih =>
      rw [modelEqualizer, List.range_succ, List.foldl_append, ← modelEqualizer, List.foldl_cons, List.foldl_nil,
        modelEqualizerStep]
      simp only [List.length_append, List.length_map, List.length_range, List.length_singleton, ih]
      omega

/-- The soft values of a timestamp come from the candidates of its step. -/
theorem getD_soft (memory : SharedMemory) (scale : Nat) {timestamp count bit : Nat} (h : timestamp < count)
    (hbit : bit < 3) :
    (modelEqualizer memory scale count).soft.getD (timestamp * 4 + bit) 0
      = softValue (candidate memory timestamp (modelEqualizer memory scale timestamp)) scale bit := by
  induction count with
  | zero => exact absurd h (Nat.not_lt_zero _)
  | succ count ih =>
      rw [modelEqualizer, List.range_succ, List.foldl_append, ← modelEqualizer, List.foldl_cons, List.foldl_nil,
        modelEqualizerStep]
      have hlength := length_soft memory scale count
      rcases Nat.lt_or_eq_of_le (Nat.le_of_lt_succ h) with hlt | rfl
      · rw [List.append_assoc, List.getD_append _ _ _ _ (by omega)]
        exact ih hlt
      · rw [List.append_assoc, List.getD_append_right _ _ _ _ (by omega), hlength, Nat.add_sub_cancel_left,
          List.getD_append _ _ _ _ (by rw [List.length_map, List.length_range]; exact hbit)]
        exact getD_map_range _ hbit 0

theorem extend_cost (memory : SharedMemory) (first : Fin 8) {symbols : List (Fin 8)} {timestamp : Nat}
    (h : symbols.length = timestamp) (next : Fin 8) :
    (extend memory timestamp
        (cost memory first symbols, register (memory (w1EplInputOffset + first)).toNat symbols) next).1
      = cost memory first (symbols ++ [next]) := by
  have hsucc : (symbols ++ [next]).length = timestamp + 1 := by rw [List.length_append, h, List.length_singleton]
  have hwalk := walk_kept_modelStart memory first hsucc
  rw [extensions, List.range_succ, List.map_append, List.map_singleton, ← extensions,
    walk_append (h.trans (length_extensions memory timestamp).symm), walk_kept_modelStart memory first h] at hwalk
  exact congrArg Prod.fst hwalk

/-- Each minimum is what one sequence with the bit costs, and with two symbols none of them costs less. -/
theorem minimum_costs (memory : SharedMemory) (scale timestamp : Nat) {bit hypothesis : Nat}
    (hsome : ∃ p < 8, p >>> bit &&& 1 = hypothesis) :
    let least := minimum (candidate memory timestamp (modelEqualizer memory scale timestamp)) bit hypothesis
    least ∈ costsWith memory timestamp bit hypothesis ∧
      (TwoSymbols memory → IsLeast (costsWith memory timestamp bit hypothesis) least) := by
  intro least
  obtain ⟨⟨next, hnext, p, hp, hbit, hleast⟩, hbest⟩ := minimum_isLeast
    (candidate memory timestamp (modelEqualizer memory scale timestamp))
    (fun _ _ => (modelSaturateInt16_bounds _).2) hsome
  have hmem : least ∈ costsWith memory timestamp bit hypothesis := by
    obtain ⟨first, symbols, hlength, hlast, hkept⟩ := modelEqualizer_follows memory scale timestamp ⟨p, hp⟩
    refine ⟨first, symbols, ⟨next, hnext⟩, hlength, ?_, ?_⟩
    · rw [hlast]
      exact hbit
    · rw [← extend_cost memory first hlength, ← hkept]
      exact hleast
  refine ⟨hmem, fun hmemory => ⟨hmem, ?_⟩⟩
  rintro m ⟨first, symbols, next, rfl, hbit, rfl⟩
  have hle := extend_noWorse hmemory symbols.length next (modelEqualizer_noWorse hmemory scale first symbols)
  rw [← extend_cost memory first rfl]
  have hcandidate := hbest ⟨next, next.isLt, (lastSymbol first symbols).val, Fin.isLt _, hbit, rfl⟩
  exact hcandidate.trans hle.1

/-- **The soft values of the equalizer.** The soft value of a bit is the scaled difference, converted to
    `int16_t`, between what a sequence costs that has the bit set in its last symbol but one and what one costs
    that has it clear. It stays within the limit of the scale word, and where the difference fits it has its
    sign: never the sign of the dearer of the two. For a channel that reaches one symbol back the two costs are
    the least of all sequences. -/
theorem modelEqualizer_soft (memory : SharedMemory) (scale : Nat) {timestamp count bit : Nat}
    (h : timestamp < count) (hbit : bit < 3) :
    let soft := (modelEqualizer memory scale count).soft.getD (timestamp * 4 + bit) 0
    ∃ clear ∈ costsWith memory timestamp bit 0, ∃ set ∈ costsWith memory timestamp bit 1,
      soft = modelScaleSoft (toInt16 (set - clear)) scale ∧
      -softLimit scale ≤ soft ∧ soft ≤ softLimit scale ∧
      (-2 ^ 15 ≤ set - clear → set - clear < 2 ^ 15 → (0 < soft → clear < set) ∧ (soft < 0 → set < clear)) ∧
      (TwoSymbols memory →
        IsLeast (costsWith memory timestamp bit 0) clear ∧ IsLeast (costsWith memory timestamp bit 1) set) := by
  intro soft
  have hsome : ∀ hypothesis < 2, ∃ p < 8, p >>> bit &&& 1 = hypothesis := by
    have hall : ∀ bit < 3, ∀ hypothesis < 2, ∃ p < 8, p >>> bit &&& 1 = hypothesis := by decide
    exact hall bit hbit
  obtain ⟨hclear, hclearLeast⟩ := minimum_costs memory scale timestamp (hsome 0 (by decide))
  obtain ⟨hset, hsetLeast⟩ := minimum_costs memory scale timestamp (hsome 1 (by decide))
  have hsoft : soft = softValue (candidate memory timestamp (modelEqualizer memory scale timestamp)) scale bit :=
    getD_soft memory scale h hbit
  rw [softValue] at hsoft
  refine ⟨_, hclear, _, hset, hsoft, ?_, ?_, fun hlow hhigh => ?_, fun hmemory =>
    ⟨hclearLeast hmemory, hsetLeast hmemory⟩⟩
  · rw [hsoft]
    exact (modelScaleSoft_bounds _ _).1
  · rw [hsoft]
    exact (modelScaleSoft_bounds _ _).2
  · rw [toInt16, Int.bmod_eq_of_le (by omega) (by omega)] at hsoft
    rw [hsoft]
    exact ⟨fun hpos => Int.sub_pos.mp (modelScaleSoft_pos hpos), fun hneg => sub_neg.mp (modelScaleSoft_neg hneg)⟩

/-- The metrics at the start are not negative, so no sequence costs less than nothing. -/
theorem cost_twoTaps (first : Fin 8) (symbols : List (Fin 8)) :
    0 ≤ cost twoTaps first symbols ∧ cost twoTaps first symbols < 2 ^ 15 := by
  have hstart : ∀ symbol : Fin 8, 0 ≤ int16At twoTaps (w2EmlInputOffset + symbol) := by decide
  have hfirst := hstart first
  rw [cost]
  omega

/-- The soft value of the lowest bit of the second step is 44: sequences with the bit clear cost less. -/
theorem modelEqualizer_soft_twoTaps : ∃ clear set, IsLeast (costsWith twoTaps 1 0 0) clear ∧
    IsLeast (costsWith twoTaps 1 0 1) set ∧ clear < set ∧ modelScaleSoft (toInt16 (set - clear)) 0x0804 = 44 := by
  obtain ⟨clear, hclear, set, hset, hsoft, -, -, hsign, hleast⟩ :=
    modelEqualizer_soft twoTaps 0x0804 (show 1 < 2 by decide) (show 0 < 3 by decide)
  have hvalue : (modelEqualizer twoTaps 0x0804 2).soft.getD (1 * 4 + 0) 0 = 44 := by decide +kernel
  rw [hvalue] at hsoft hsign
  obtain ⟨hclearLeast, hsetLeast⟩ := hleast twoSymbols_twoTaps
  obtain ⟨first, symbols, next, -, -, hclearCost⟩ := hclear
  obtain ⟨first', symbols', next', -, -, hsetCost⟩ := hset
  have hclearBounds := cost_twoTaps first (symbols ++ [next])
  have hsetBounds := cost_twoTaps first' (symbols' ++ [next'])
  rw [← hclearCost] at hclearBounds
  rw [← hsetCost] at hsetBounds
  have hless := (hsign (by omega) (by omega)).1 (by decide)
  exact ⟨clear, set, hclearLeast, hsetLeast, hless, hsoft.symm⟩

end Pmb887x.Dsp.Equalizer
