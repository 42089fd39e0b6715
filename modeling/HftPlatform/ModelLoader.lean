import HftPlatform.PythonCodecs
import HftPlatform.Lib.Binary64
import HftPlatform.Lib.Interleave
import HftPlatform.Lib.LastWrite

/-!
# Loading a model while it is in use

`ModelLoader` of `services/ai_predictor/app/inference/model_loader.py` and `run_inference` of
`runner.py`. A load reads a model and a normalizer from disk, and swaps both in under one lock; an
inference takes the normalizer and then the model, each under the lock, and computes in between
without it. Any number of loads and inferences run at once. An estimator is what the inference asks
of it; a method that raises has no result.

## Main results

* `step_cases`: what a critical section can do.
* `inv_run`: what an inference has used is what was loaded when it took it.
* `sameLoad_iff`: when every inference uses the normalizer and the model of one load.
-/

namespace HftPlatform.AiPredictor

open Lib Interleave

/-! ### The inference -/

/-- The features as the service holds them. -/
structure FeatureVector where
  symbol : String
  ts : ℤ
  emaFast : Binary64
  emaSlow : Binary64
  rsi : Binary64
  macd : Binary64
  macdSignal : Binary64
  macdHist : Binary64
  vwap : Binary64
  deriving DecidableEq, Repr

/-- The features in the order of the model. -/
def FeatureVector.toArray (fv : FeatureVector) : List Binary64 :=
  [fv.emaFast, fv.emaSlow, fv.rsi, fv.macd, fv.macdSignal, fv.macdHist, fv.vwap]

/-- Mean and deviation, or minimum and range. -/
structure Normalizer where
  paramA : List Binary64
  paramB : List Binary64
  deriving DecidableEq, Repr

/-- An array as an operand of arrays of length `n`; a single value stands for all. -/
def broadcast (n : ℕ) : List Binary64 → Option (List Binary64)
  | [x] => some (List.replicate n x)
  | xs => if xs.length = n then some xs else none

/-- A fitted estimator; not every one has `predict_proba`. -/
structure Estimator where
  predictProba : Option (List Binary64 → Option (List Binary64))
  predict : List Binary64 → Option ℤ

/-- What an inference reads of the configuration. -/
structure Config where
  confidenceThreshold : Binary64

/-- Where the largest value is; the first of several, and a NaN before any number. -/
def argmaxFrom (best : Binary64) (bestIdx idx : ℕ) : List Binary64 → ℕ
  | [] => bestIdx
  | x :: xs =>
      if best ≠ .nan ∧ (x = .nan ∨ best.lt x = true) then argmaxFrom x idx (idx + 1) xs
      else argmaxFrom best bestIdx (idx + 1) xs

/-- The direction that a class stands for. -/
def classToDirection (classIdx : ℤ) : Ai.Direction :=
  if classIdx = 0 then .hold
  else if classIdx = 1 then .long
  else if classIdx = 2 then .short
  else .hold

section Inference

variable (fp : Rounding) (cfg : Config)

/-- The features, normalized. -/
def Normalizer.transform (n : Normalizer) (arr : List Binary64) : Option (List Binary64) := do
  let a ← broadcast arr.length n.paramA
  let b ← broadcast arr.length n.paramB
  return List.zipWith fp.div (List.zipWith fp.sub arr a) b

/-- The class that a model finds. -/
structure Classified where
  classIdx : ℤ
  confidence : Binary64
  rawScore : Binary64

/-- The class of the largest of some probabilities; there is none without a class. -/
def largest : List Binary64 → Option Classified
  | [] => none
  | p :: ps =>
      let classIdx := argmaxFrom p 0 1 ps
      let confidence := ((p :: ps)[classIdx]?).getD .nan
      some { classIdx, confidence, rawScore := confidence }

/-- The class and its confidence, by the probabilities of the model if it has any. -/
def Estimator.classify (model : Estimator) (x : List Binary64) : Option Classified :=
  match model.predictProba with
  | some predictProba => (predictProba x).bind largest
  | none => (model.predict x).map fun classIdx =>
      { classIdx, confidence := fp.lit 1, rawScore := fp.lit classIdx }

/-- What `run_inference` makes of the normalized features. -/
def conclude (model : Estimator) (x : List Binary64) :
    Option (Ai.Direction × Binary64 × Binary64) := do
  let c ← model.classify fp x
  let direction := classToDirection c.classIdx
  return (if direction ≠ .hold ∧ c.confidence.lt cfg.confidenceThreshold = true then .hold
    else direction, c.confidence, c.rawScore)

/-- `run_inference`, with the normalizer and the model that it takes. -/
def infer (normalizer : Normalizer) (model : Estimator) (fv : FeatureVector) :
    Option (Ai.Direction × Binary64 × Binary64) := do
  conclude fp cfg model (← normalizer.transform fp fv.toArray)

end Inference

/-! ### The critical sections -/

/-- What a load has read from disk when it takes the lock. -/
structure LoadCall where
  model : Estimator
  normalizer : Normalizer
  modelVersion : String

/-- A swap, or one of the two reads of an inference. -/
inductive Event (ℓ ι : Type)
  | load (l : ℓ)
  | normalizer (i : ι)
  | model (i : ι)
  deriving DecidableEq, Repr

/-- How far an inference is, with the loads whose artifacts it has used. -/
inductive Phase (ℓ : Type)
  | idle
  | normalized (normalizerOf : ℓ) (x : List Binary64)
  | done (normalizerOf modelOf : ℓ) (result : Ai.Direction × Binary64 × Binary64)
  | failed

/-- The fields of the loader, each with the load that set it, and the inferences. -/
structure State (ℓ ι : Type) where
  model : Option (ℓ × Estimator) := none
  normalizer : Option (ℓ × Normalizer) := none
  modelVersion : String := "unknown"
  loads : List ℓ := []
  phase : ι → Phase ℓ := fun _ => .idle

section Model

variable {ℓ ι : Type} [DecidableEq ℓ] [DecidableEq ι]

/-- An inference goes on. -/
def State.move (s : State ℓ ι) (i : ι) (p : Phase ℓ) : State ℓ ι :=
  { s with phase := Function.update s.phase i p }

variable (fp : Rounding) (cfg : Config) (loads : ℓ → LoadCall) (fvs : ι → FeatureVector)

/-- One critical section, with what its thread computes next. A load takes place once. -/
def step (s : State ℓ ι) : Event ℓ ι → Option (State ℓ ι)
  | .load l =>
      if l ∈ s.loads then none
      else some { s with
        model := some (l, (loads l).model)
        normalizer := some (l, (loads l).normalizer)
        modelVersion := (loads l).modelVersion
        loads := s.loads ++ [l] }
  | .normalizer i =>
      match s.phase i with
      | .idle =>
          match s.normalizer with
          | none => some (s.move i .failed)
          | some (l, normalizer) =>
              match normalizer.transform fp (fvs i).toArray with
              | none => some (s.move i .failed)
              | some x => some (s.move i (.normalized l x))
      | _ => none
  | .model i =>
      match s.phase i with
      | .normalized n x =>
          match s.model with
          | none => some (s.move i .failed)
          | some (l, model) =>
              match conclude fp cfg model x with
              | none => some (s.move i .failed)
              | some result => some (s.move i (.done n l result))
      | _ => none

/-- A run of critical sections. -/
def run (tr : List (Event ℓ ι)) : Option (State ℓ ι) :=
  Interleave.run (step fp cfg loads fvs) {} tr

/-- The load that took place last. -/
def lastLoad (tr : List (Event ℓ ι)) : Option ℓ :=
  lastWrite (fun e => match e with | .load l => some l | _ => none) tr

end Model

/-! ### What a critical section can do -/

variable {ℓ ι : Type} [DecidableEq ℓ] [DecidableEq ι] {fp : Rounding} {cfg : Config}
  {loads : ℓ → LoadCall} {fvs : ι → FeatureVector} {s s' : State ℓ ι} {tr : List (Event ℓ ι)}
  {e : Event ℓ ι} {i j : ι}

omit [DecidableEq ℓ] in
/-- It is where it went. -/
@[simp] theorem move_phase_self (p : Phase ℓ) : (s.move i p).phase i = p := by
  simp [State.move]

omit [DecidableEq ℓ] in
/-- The others stay where they are. -/
theorem move_phase_of_ne (p : Phase ℓ) (h : j ≠ i) : (s.move i p).phase j = s.phase j := by
  simp [State.move, h]

/-- **What a critical section can do.** -/
theorem step_cases (h : step fp cfg loads fvs s e = some s') :
    (∃ l, e = .load l ∧ l ∉ s.loads ∧ s' = { s with
      model := some (l, (loads l).model), normalizer := some (l, (loads l).normalizer),
      modelVersion := (loads l).modelVersion, loads := s.loads ++ [l] }) ∨
    (∃ i, e = .normalizer i ∧ s.phase i = .idle ∧
      (s' = s.move i .failed ∨ ∃ l normalizer x, s.normalizer = some (l, normalizer) ∧
        normalizer.transform fp (fvs i).toArray = some x ∧ s' = s.move i (.normalized l x))) ∨
    (∃ i n x, e = .model i ∧ s.phase i = .normalized n x ∧
      (s' = s.move i .failed ∨ ∃ l model result, s.model = some (l, model) ∧
        conclude fp cfg model x = some result ∧ s' = s.move i (.done n l result))) := by
  cases e with
  | load l =>
      rw [step] at h
      split at h
      · cases h
      · rename_i hl
        exact Or.inl ⟨l, rfl, hl, (Option.some.inj h).symm⟩
  | normalizer i =>
      refine Or.inr (Or.inl ⟨i, rfl, ?_⟩)
      rw [step] at h
      split at h
      · rename_i hphase
        refine ⟨hphase, ?_⟩
        split at h
        · exact Or.inl (Option.some.inj h).symm
        · rename_i l normalizer hnormalizer
          split at h
          · exact Or.inl (Option.some.inj h).symm
          · rename_i x hx
            exact Or.inr ⟨l, normalizer, x, hnormalizer, hx, (Option.some.inj h).symm⟩
      · cases h
  | model i =>
      rw [step] at h
      split at h
      · rename_i n x hphase
        refine Or.inr (Or.inr ⟨i, n, x, rfl, hphase, ?_⟩)
        split at h
        · exact Or.inl (Option.some.inj h).symm
        · rename_i l model hmodel
          split at h
          · exact Or.inl (Option.some.inj h).symm
          · rename_i result hresult
            exact Or.inr ⟨l, model, result, hmodel, hresult, (Option.some.inj h).symm⟩
      · cases h

/-! ### What a run shows -/

/-- What a run shows of an inference that is in some phase. -/
def Seen (fp : Rounding) (cfg : Config) (loads : ℓ → LoadCall) (fvs : ι → FeatureVector)
    (tr : List (Event ℓ ι)) (i : ι) : Phase ℓ → Prop
  | .idle => before (.normalizer i) tr = [] ∧ before (.model i) tr = []
  | .normalized n x => before (.model i) tr = [] ∧ ∃ a, before (.normalizer i) tr = [a] ∧
      lastLoad a = some n ∧ (loads n).normalizer.transform fp (fvs i).toArray = some x
  | .done n m result => ∃ a b, before (.normalizer i) tr = [a] ∧
      before (.model i) tr = [a ++ .normalizer i :: b] ∧ lastLoad a = some n ∧
      lastLoad (a ++ .normalizer i :: b) = some m ∧
      infer fp cfg (loads n).normalizer (loads m).model (fvs i) = some result
  | .failed => True

/-- The fields are those of the last load, and each load took place once. -/
structure Inv (fp : Rounding) (cfg : Config) (loads : ℓ → LoadCall) (fvs : ι → FeatureVector)
    (tr : List (Event ℓ ι)) (s : State ℓ ι) : Prop where
  model : s.model = (lastLoad tr).map fun l => (l, (loads l).model)
  normalizer : s.normalizer = (lastLoad tr).map fun l => (l, (loads l).normalizer)
  loads_mem : ∀ l, .load l ∈ tr ↔ l ∈ s.loads
  once : ∀ l a b, tr = a ++ .load l :: b → .load l ∉ a ∧ .load l ∉ b
  seen : ∀ i, Seen fp cfg loads fvs tr i (s.phase i)

omit [DecidableEq ℓ] [DecidableEq ι] in
/-- The last load is the one that comes last. -/
theorem lastLoad_concat_load (l : ℓ) : lastLoad (tr ++ [.load l]) = some l := by
  rw [lastLoad, lastWrite_concat]
  rfl

omit [DecidableEq ℓ] [DecidableEq ι] in
/-- Other events leave the last load as it is. -/
theorem lastLoad_concat_of_not_load (h : ∀ l, e ≠ .load l) :
    lastLoad (tr ++ [e]) = lastLoad tr := by
  rw [lastLoad, lastWrite_concat]
  cases e with
  | load l => exact absurd rfl (h l)
  | normalizer i => rfl
  | model i => rfl

/-- Other events leave what was before an event as it is. -/
theorem before_concat_of_ne {e' : Event ℓ ι} (h : e ≠ e') :
    before e' (tr ++ [e]) = before e' tr := by
  rw [before_concat, if_neg h, List.append_nil]

/-- An event that is none of the two reads of an inference shows nothing of it. -/
theorem Seen.concat_of_ne {p : Phase ℓ} (h : Seen fp cfg loads fvs tr i p)
    (hnormalizer : e ≠ .normalizer i) (hmodel : e ≠ .model i) :
    Seen fp cfg loads fvs (tr ++ [e]) i p := by
  cases p with
  | idle => simpa only [Seen, before_concat_of_ne hnormalizer, before_concat_of_ne hmodel] using h
  | normalized n x =>
      simpa only [Seen, before_concat_of_ne hnormalizer, before_concat_of_ne hmodel] using h
  | done n m result =>
      simpa only [Seen, before_concat_of_ne hnormalizer, before_concat_of_ne hmodel] using h
  | failed => trivial

/-- At first nothing is loaded. -/
theorem inv_init : Inv fp cfg loads fvs [] ({} : State ℓ ι) where
  model := rfl
  normalizer := rfl
  loads_mem := by simp
  once := by simp
  seen i := ⟨rfl, rfl⟩

/-- A read leaves the fields, and what the run shows of the other inferences. -/
theorem Inv.read (h : Inv fp cfg loads fvs tr s) {p : Phase ℓ}
    (he : e = .normalizer i ∨ e = .model i) (hp : Seen fp cfg loads fvs (tr ++ [e]) i p) :
    Inv fp cfg loads fvs (tr ++ [e]) (s.move i p) := by
  have hload : ∀ l, e ≠ .load l := by
    rintro l rfl
    rcases he with he | he <;> cases he
  refine ⟨?_, ?_, fun l => ?_, fun l a b heq => ?_, fun j => ?_⟩
  · rw [lastLoad_concat_of_not_load hload]
    exact h.model
  · rw [lastLoad_concat_of_not_load hload]
    exact h.normalizer
  · rw [List.mem_append, List.mem_singleton, or_iff_left (hload l).symm]
    exact h.loads_mem l
  · rcases List.eq_nil_or_concat b with rfl | ⟨b, x, rfl⟩
    · exact absurd (List.append_inj' heq rfl).2 (by simp [hload l])
    · rw [List.concat_eq_append, ← List.cons_append, ← List.append_assoc] at heq
      obtain ⟨htr, hx⟩ := List.append_inj' heq rfl
      obtain ⟨ha, hb⟩ := h.once l a b htr
      refine ⟨ha, ?_⟩
      rw [List.concat_eq_append, ← hx, List.mem_append, List.mem_singleton,
        or_iff_left (hload l).symm]
      exact hb
  · by_cases hj : j = i
    · rw [hj, move_phase_self]
      exact hp
    · rw [move_phase_of_ne p hj]
      refine (h.seen j).concat_of_ne ?_ ?_ <;> rcases he with rfl | rfl <;> simp [Ne.symm hj]

/-- A load sets both fields. -/
theorem Inv.load (h : Inv fp cfg loads fvs tr s) {l : ℓ} (hl : l ∉ s.loads) :
    Inv fp cfg loads fvs (tr ++ [.load l]) { s with
      model := some (l, (loads l).model), normalizer := some (l, (loads l).normalizer),
      modelVersion := (loads l).modelVersion, loads := s.loads ++ [l] } := by
  refine ⟨?_, ?_, fun l' => ?_, fun l' a b heq => ?_, fun j => ?_⟩
  · rw [lastLoad_concat_load]
    rfl
  · rw [lastLoad_concat_load]
    rfl
  · rw [List.mem_append, List.mem_append, List.mem_singleton, List.mem_singleton,
      h.loads_mem, Event.load.injEq]
  · rcases List.eq_nil_or_concat b with rfl | ⟨b, x, rfl⟩
    · obtain ⟨rfl, hx⟩ := List.append_inj' heq rfl
      obtain rfl : l = l' := by simpa using hx
      exact ⟨mt (h.loads_mem l).mp hl, by simp⟩
    · rw [List.concat_eq_append, ← List.cons_append, ← List.append_assoc] at heq
      obtain ⟨htr, hx⟩ := List.append_inj' heq rfl
      obtain rfl : x = .load l := by simpa using hx.symm
      obtain ⟨ha, hb⟩ := h.once l' a b htr
      refine ⟨ha, ?_⟩
      have hne : l' ≠ l := by
        rintro rfl
        exact hl ((h.loads_mem l').mp (by rw [htr]; simp))
      simp [hb, hne]
  · exact (h.seen j).concat_of_ne (by simp) (by simp)

/-- **Each critical section** keeps the invariant. -/
theorem Inv.step (h : Inv fp cfg loads fvs tr s)
    (hstep : AiPredictor.step fp cfg loads fvs s e = some s') :
    Inv fp cfg loads fvs (tr ++ [e]) s' := by
  rcases step_cases hstep with ⟨l, rfl, hl, rfl⟩ | ⟨i, rfl, hp, hread⟩ | ⟨i, n, x, rfl, hp, hread⟩
  · exact h.load hl
  · rcases hread with rfl | ⟨l, normalizer, x, hnormalizer, hx, rfl⟩
    · exact h.read (Or.inl rfl) trivial
    · refine h.read (Or.inl rfl) ?_
      have hseen := h.seen i
      rw [hp] at hseen
      rw [h.normalizer, Option.map_eq_some_iff] at hnormalizer
      obtain ⟨l', hlast, heq⟩ := hnormalizer
      obtain ⟨rfl, rfl⟩ := Prod.mk.inj heq
      refine ⟨?_, tr, ?_, hlast, hx⟩
      · rw [before_concat_of_ne (by simp), hseen.2]
      · rw [before_concat, if_pos rfl, hseen.1, List.nil_append]
  · rcases hread with rfl | ⟨l, model, result, hmodel, hresult, rfl⟩
    · exact h.read (Or.inr rfl) trivial
    · refine h.read (Or.inr rfl) ?_
      have hseen := h.seen i
      rw [hp] at hseen
      obtain ⟨hnone, a, ha, hlast, hx⟩ := hseen
      obtain ⟨b, hb⟩ := mem_before.mp (by rw [ha]; simp : a ∈ before (.normalizer i) tr)
      rw [h.model, Option.map_eq_some_iff] at hmodel
      obtain ⟨l', hlast', heq⟩ := hmodel
      obtain ⟨rfl, rfl⟩ := Prod.mk.inj heq
      refine ⟨a, b, ?_, ?_, hlast, ?_, ?_⟩
      · rw [before_concat_of_ne (by simp), ha]
      · rw [before_concat, if_pos rfl, hnone, List.nil_append, hb]
      · rw [← hb, hlast']
      · rw [infer, hx]
        exact hresult

/-- **Every run** keeps it: what an inference has used is what was loaded when it took it. -/
theorem inv_run (h : run fp cfg loads fvs tr = some s) : Inv fp cfg loads fvs tr s := by
  refine run_induction (P := Inv fp cfg loads fvs) inv_init ?_ h
  intro tr s e s' hinv hstep
  exact hinv.step hstep

/-! ### One load -/

omit [DecidableEq ℓ] [DecidableEq ι] in
/-- The load that took place last did take place. -/
theorem mem_of_lastLoad {l : ℓ} (h : lastLoad tr = some l) : .load l ∈ tr := by
  obtain ⟨e, he, hl⟩ := exists_of_lastWrite h
  cases e with
  | load l' =>
      obtain rfl := Option.some.inj hl
      exact he
  | normalizer i => cases hl
  | model i => cases hl

omit [DecidableEq ℓ] [DecidableEq ι] in
/-- There is no last load if nothing was loaded. -/
theorem lastLoad_eq_none_iff : lastLoad tr = none ↔ ∀ l, .load l ∉ tr := by
  constructor
  · intro h l hl
    rw [lastLoad] at h
    refine absurd h (lastWrite_ne_none (x := l) hl ?_)
    rfl
  · intro h
    by_contra hne
    obtain ⟨l, hl⟩ := Option.ne_none_iff_exists'.mp hne
    exact h l (mem_of_lastLoad hl)

/-- Where each load takes place once, the last one is the same before and after some events exactly
when there is no load among them. -/
theorem Inv.lastLoad_eq_iff (h : Inv fp cfg loads fvs tr s) {a b c : List (Event ℓ ι)} {n m : ℓ}
    (htr : tr = a ++ b ++ c) (hn : lastLoad a = some n) (hm : lastLoad (a ++ b) = some m) :
    n = m ↔ ∀ l, .load l ∉ b := by
  rw [lastLoad, lastWrite_append, ← lastLoad, ← lastLoad] at hm
  rw [← lastLoad_eq_none_iff]
  cases hb : lastLoad b with
  | none =>
      rw [hb, hn] at hm
      simpa using hm
  | some l =>
      rw [hb] at hm
      obtain rfl := Option.some.inj hm
      have hmem : .load l ∈ b := mem_of_lastLoad hb
      obtain ⟨b₁, b₂, rfl⟩ := List.append_of_mem hmem
      have honce := (h.once l (a ++ b₁) (b₂ ++ c) (by rw [htr]; simp)).1
      simp only [reduceCtorEq, iff_false]
      rintro rfl
      exact honce (List.mem_append_left _ (mem_of_lastLoad hn))

/-- **One load.** In every run of any loads and inferences, each inference that completes uses a
normalizer and a model that were installed by one load if and only if no load takes place between
the two reads of an inference that completes. -/
theorem sameLoad_iff (fp : Rounding) (cfg : Config) (loads : ℓ → LoadCall)
    (fvs : ι → FeatureVector) (tr : List (Event ℓ ι)) (s : State ℓ ι)
    (hrun : run fp cfg loads fvs tr = some s) :
    (∀ i n m result, s.phase i = .done n m result → n = m) ↔
      ∀ i n m result, s.phase i = .done n m result → ∀ a b c,
        tr = a ++ .normalizer i :: (b ++ .model i :: c) → ∀ l, .load l ∉ b := by
  have h := inv_run hrun
  refine forall_congr' fun i => forall_congr' fun n => forall_congr' fun m =>
    forall_congr' fun result => forall_congr' fun hp => ?_
  have hseen := h.seen i
  rw [hp] at hseen
  obtain ⟨a, b, ha, hb, hn, hm, -⟩ := hseen
  obtain ⟨c, hc⟩ := mem_before.mp
    (by rw [hb]; simp : a ++ .normalizer i :: b ∈ before (.model i) tr)
  have hiff := h.lastLoad_eq_iff (b := .normalizer i :: b) hc hn hm
  have hbetween : n = m ↔ ∀ l, .load l ∉ b := by
    rw [hiff]
    simp
  rw [hbetween]
  constructor
  · intro hnone a' b' c' htr
    obtain rfl : a' = a := by
      have hmem : a' ∈ before (.normalizer i) tr := mem_before.mpr ⟨_, htr⟩
      rw [ha] at hmem
      exact List.mem_singleton.mp hmem
    obtain rfl : b' = b := by
      have hmem : a' ++ .normalizer i :: b' ∈ before (.model i) tr :=
        mem_before.mpr ⟨c', by rw [htr]; simp⟩
      rw [hb] at hmem
      exact (List.cons.inj (List.append_cancel_left (List.mem_singleton.mp hmem))).2
    exact hnone
  · intro hnone
    exact hnone a b c (by rw [hc]; simp)

/-! ### A reload -/

/-- The artifacts of a release: features are centered at a price, and the sign of the first one is
the class. -/
def release (center confidence : ℚ) : LoadCall where
  normalizer := { paramA := [.fin center], paramB := [.fin 1] }
  model :=
    { predictProba := some fun x =>
        if (x.headD .zero).gt .zero then some [.fin 0, .fin confidence, .fin (1 - confidence)]
        else some [.fin 0, .fin (1 - confidence), .fin confidence]
      predict := fun _ => none }
  modelVersion := "sklearn-v0.1.0"

/-- Two releases, centered at different prices. -/
def releases : Bool → LoadCall
  | true => release 100 (3 / 4)
  | false => release 300 (9 / 10)

/-- All features at one price. -/
def featuresAt (price : ℚ) : FeatureVector where
  symbol := "BTCUSDT"
  ts := 0
  emaFast := .fin price
  emaSlow := .fin price
  rsi := .fin price
  macd := .fin price
  macdSignal := .fin price
  macdHist := .fin price
  vwap := .fin price

/-- The loads whose artifacts the inference used, and its result. -/
def State.outcome (s : State Bool Unit) :
    Option (Bool × Bool × Ai.Direction × Binary64 × Binary64) :=
  match s.phase () with
  | .done n m result => some (n, m, result)
  | _ => none

/-- An inference with an outcome is done. -/
theorem phase_of_outcome {s : State Bool Unit} {n m : Bool}
    {result : Ai.Direction × Binary64 × Binary64} (h : s.outcome = some (n, m, result)) :
    s.phase () = .done n m result := by
  rw [State.outcome] at h
  split at h
  · rename_i hphase
    obtain ⟨rfl, hrest⟩ := Prod.mk.inj (Option.some.inj h)
    obtain ⟨rfl, rfl⟩ := Prod.mk.inj hrest
    exact hphase
  · cases h

/-- A reload after the inference. -/
theorem sameLoad_lateReload : ∃ s, run .exact ⟨.fin (3 / 5)⟩ releases (fun _ => featuresAt 200)
      [.load true, .normalizer (), .model (), .load false] = some s ∧
    ∀ i n m result, s.phase i = .done n m result → n = m := by
  have hsome : (run .exact ⟨.fin (3 / 5)⟩ releases (fun _ => featuresAt 200)
      [.load true, .normalizer (), .model (), .load false]).isSome = true := by decide +kernel
  obtain ⟨s, hs⟩ := Option.isSome_iff_exists.mp hsome
  refine ⟨s, hs, (sameLoad_iff _ _ _ _ _ _ hs).mpr fun i n m result _ a b c htr l => ?_⟩
  cases i
  rcases a with - | ⟨x, a⟩
  · cases htr
  · rcases a with - | ⟨y, a⟩
    · rcases b with - | ⟨z, b⟩
      · simp
      · rcases b with - | ⟨w, b⟩ <;> simp at htr
    · rcases a with - | ⟨z, a⟩ <;> simp at htr
      rcases a with - | ⟨w, a⟩ <;> simp at htr

/-- A reload in between: the price is centered by the first release and classified by the second,
as a LONG with a confidence that neither release has in one. -/
theorem reload_mixes : ∃ s, run .exact ⟨.fin (3 / 5)⟩ releases (fun _ => featuresAt 200)
      [.load true, .normalizer (), .load false, .model ()] = some s ∧
    s.phase () = .done true false (.long, .fin (9 / 10), .fin (9 / 10)) ∧
    ¬ ∀ i n m result, s.phase i = .done n m result → n = m := by
  have houtcome : (run .exact ⟨.fin (3 / 5)⟩ releases (fun _ => featuresAt 200)
      [.load true, .normalizer (), .load false, .model ()]).map State.outcome =
        some (some (true, false, .long, .fin (9 / 10), .fin (9 / 10))) := by decide +kernel
  obtain ⟨s, hs, hout⟩ := Option.map_eq_some_iff.mp houtcome
  have hphase := phase_of_outcome hout
  exact ⟨s, hs, hphase, fun hsame => absurd (hsame _ _ _ _ hphase) (by decide)⟩

end HftPlatform.AiPredictor
