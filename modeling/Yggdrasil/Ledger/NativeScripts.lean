import Yggdrasil.Ledger.Witnesses

/-!
# Native scripts

The evaluator of `native_script.rs` and `validate_native_scripts_if_present` of
`state/phase1_validation.rs`.  The evaluator walks the script with a stack of work and a stack of
verdicts; it is compared with the verdict by recursion on the script.  Every era's block rules and
`apply_submitted_tx` pass the slot of the block as `current_slot`, and the time locks of a script are
judged against that slot.  The last section says for which locks and validity intervals the verdict
is nevertheless the same at all slots of the interval.

Decoding the witness set and hashing a script are given functions.
-/

namespace Yggdrasil.Ledger

open Library

inductive NativeScript where
  | scriptPubkey (keyHash : Hash28)
  | scriptAll (scripts : List NativeScript)
  | scriptAny (scripts : List NativeScript)
  | scriptNOfK (required : Int64) (scripts : List NativeScript)
  | invalidBefore (slot : SlotNo)
  | invalidHereafter (slot : SlotNo)

/-- The keys that signed, and the slot that time locks are compared with. -/
structure NativeScriptContext where
  vkeyHashes : List Hash28
  currentSlot : SlotNo

/-! ## The evaluator -/

namespace NativeScript

/-- How the verdicts of sub-scripts are combined. -/
inductive Combine where
  | all
  | any
  | nOfK (required : Nat)

/-- An entry of the work stack. -/
inductive Action where
  | eval (script : NativeScript)
  | combine (kind : Combine) (childCount : Nat)

/-- `(*n).max(0) as usize`. -/
def required (count : Int64) : Nat := count.toInt.toNat

def Combine.verdict (childCount satisfied : Nat) : Combine → Bool
  | .all => satisfied = childCount
  | .any => 0 < satisfied
  | .nOfK required => required ≤ satisfied

mutual

def size : NativeScript → Nat
  | .scriptAll scripts | .scriptAny scripts | .scriptNOfK _ scripts => sizes scripts + 1
  | .scriptPubkey _ | .invalidBefore _ | .invalidHereafter _ => 1

def sizes : List NativeScript → Nat
  | [] => 0
  | script :: rest => script.size + sizes rest

end

/-- Every node is taken from the stack at most twice. -/
def Action.effort : Action → Nat
  | .eval script => 2 * script.size
  | .combine _ _ => 1

def effort (work : List Action) : Nat := (work.map Action.effort).sum

/-- The work that replaces a node with sub-scripts: the sub-scripts in order, then the node. -/
def expand (kind : Combine) (scripts : List NativeScript) (work : List Action) : List Action :=
  scripts.map .eval ++ .combine kind scripts.length :: work

theorem effort_expand (kind : Combine) (scripts : List NativeScript) (work : List Action) :
    effort (expand kind scripts work) = 2 * sizes scripts + 1 + effort work := by
  induction scripts with
  | nil => simp [expand, effort, sizes, Action.effort]
  | cons script rest ih =>
    have hrest : effort (rest.map .eval ++ .combine kind (rest.length + 1) :: work) =
        effort (expand kind rest work) := by
      simp [expand, effort, Action.effort]
    have hcons : effort (expand kind (script :: rest) work) =
        2 * script.size + effort (rest.map .eval ++ .combine kind (rest.length + 1) :: work) := by
      simp [expand, effort, Action.effort]
    rw [hcons, hrest, ih, sizes]
    omega

/-- The loop of `evaluate_native_script`; the top of a stack is the head of its list. -/
def evaluateLoop (ctx : NativeScriptContext) : List Action → List Bool → List Bool
  | [], results => results
  | .eval (.scriptPubkey keyHash) :: work, results =>
    evaluateLoop ctx work ((keyHash ∈ ctx.vkeyHashes) :: results)
  | .eval (.invalidBefore slot) :: work, results =>
    evaluateLoop ctx work ((ctx.currentSlot ≥ slot) :: results)
  | .eval (.invalidHereafter slot) :: work, results =>
    evaluateLoop ctx work ((ctx.currentSlot < slot) :: results)
  | .eval (.scriptAll scripts) :: work, results =>
    evaluateLoop ctx (expand .all scripts work) results
  | .eval (.scriptAny scripts) :: work, results =>
    evaluateLoop ctx (expand .any scripts work) results
  | .eval (.scriptNOfK n scripts) :: work, results =>
    evaluateLoop ctx (expand (.nOfK (required n)) scripts work) results
  | .combine kind childCount :: work, results =>
    evaluateLoop ctx work
      (kind.verdict childCount ((results.take childCount).count true) ::
        results.drop childCount)
termination_by work => effort work
decreasing_by
  all_goals try rw [effort_expand]
  all_goals simp only [effort, List.map_cons, List.sum_cons, Action.effort, size]
  all_goals omega

/-- The verdict; `none` stands for the `expect` on an empty stack. -/
def evaluateNativeScript (script : NativeScript) (ctx : NativeScriptContext) : Option Bool :=
  (evaluateLoop ctx [.eval script] []).head?

/-! ## The verdict by recursion -/

mutual

def satisfied (ctx : NativeScriptContext) : NativeScript → Bool
  | .scriptPubkey keyHash => keyHash ∈ ctx.vkeyHashes
  | .invalidBefore slot => slot ≤ ctx.currentSlot
  | .invalidHereafter slot => ctx.currentSlot < slot
  | .scriptAll scripts => Combine.all.verdict scripts.length (countSatisfied ctx scripts)
  | .scriptAny scripts => Combine.any.verdict scripts.length (countSatisfied ctx scripts)
  | .scriptNOfK n scripts =>
    (Combine.nOfK (required n)).verdict scripts.length (countSatisfied ctx scripts)

def countSatisfied (ctx : NativeScriptContext) : List NativeScript → Nat
  | [] => 0
  | script :: rest => (satisfied ctx script).toNat + countSatisfied ctx rest

end

variable (ctx : NativeScriptContext)

theorem countSatisfied_eq_count (scripts : List NativeScript) :
    countSatisfied ctx scripts = (scripts.map (satisfied ctx)).count true := by
  induction scripts with
  | nil => rfl
  | cons script rest ih =>
    rw [countSatisfied, ih, List.map_cons]
    cases satisfied ctx script with
    | false => simp
    | true => simp [add_comm]

/-- The verdicts of the sub-scripts lie on the stack, the last one on top, when they are combined. -/
theorem evaluateLoop_combine (kind : Combine) (scripts : List NativeScript) (work : List Action)
    (results : List Bool) :
    evaluateLoop ctx (.combine kind scripts.length :: work)
        ((scripts.map (satisfied ctx)).reverse ++ results) =
      evaluateLoop ctx work
        (kind.verdict scripts.length (countSatisfied ctx scripts) :: results) := by
  have hlength : (scripts.map (satisfied ctx)).reverse.length = scripts.length := by simp
  rw [evaluateLoop, ← hlength, List.take_left, List.drop_left, List.count_reverse,
    countSatisfied_eq_count]

mutual

theorem evaluateLoop_eval (script : NativeScript) (work : List Action) (results : List Bool) :
    evaluateLoop ctx (.eval script :: work) results =
      evaluateLoop ctx work (satisfied ctx script :: results) := by
  cases script with
  | scriptPubkey keyHash => rw [evaluateLoop, satisfied]
  | invalidBefore slot | invalidHereafter slot => rw [evaluateLoop, satisfied]
  | scriptAll scripts =>
    rw [evaluateLoop, expand, evaluateLoop_map_eval scripts, evaluateLoop_combine, satisfied]
  | scriptAny scripts | scriptNOfK n scripts =>
    rw [evaluateLoop, expand, evaluateLoop_map_eval scripts, evaluateLoop_combine, satisfied]

theorem evaluateLoop_map_eval (scripts : List NativeScript) (work : List Action)
    (results : List Bool) :
    evaluateLoop ctx (scripts.map .eval ++ work) results =
      evaluateLoop ctx work ((scripts.map (satisfied ctx)).reverse ++ results) := by
  cases scripts with
  | nil => rfl
  | cons script rest =>
    rw [List.map_cons, List.cons_append, evaluateLoop_eval script,
      evaluateLoop_map_eval rest]
    simp

end

/-- The stack machine never runs dry and computes the recursive verdict. -/
theorem evaluateNativeScript_eq (script : NativeScript) (ctx : NativeScriptContext) :
    script.evaluateNativeScript ctx = some (satisfied ctx script) := by
  rw [evaluateNativeScript, evaluateLoop_eval, evaluateLoop, List.head?_cons]

/-! ## The stacks along the loop -/

/-- One round of the loop: the stacks once the action on top of the work is done. -/
def round (work : List Action) (results : List Bool) : Action → List Action × List Bool
  | .eval (.scriptPubkey keyHash) => (work, (keyHash ∈ ctx.vkeyHashes) :: results)
  | .eval (.invalidBefore slot) => (work, (ctx.currentSlot ≥ slot) :: results)
  | .eval (.invalidHereafter slot) => (work, (ctx.currentSlot < slot) :: results)
  | .eval (.scriptAll scripts) => (expand .all scripts work, results)
  | .eval (.scriptAny scripts) => (expand .any scripts work, results)
  | .eval (.scriptNOfK n scripts) => (expand (.nOfK (required n)) scripts work, results)
  | .combine kind childCount =>
    (work, kind.verdict childCount ((results.take childCount).count true) ::
      results.drop childCount)

/-- The stacks that the loop comes to. -/
inductive Visits (script : NativeScript) : List Action → List Bool → Prop
  | start : Visits script [.eval script] []
  | round {action work results} (hvisits : Visits script (action :: work) results) :
    Visits script (round ctx work results action).1 (round ctx work results action).2

/-- The number of results when the work is done, if no action runs short of them. -/
def depthAfter : List Action → Nat → Option Nat
  | [], depth => some depth
  | .eval _ :: work, depth => depthAfter work (depth + 1)
  | .combine _ childCount :: work, depth =>
    if childCount ≤ depth then depthAfter work (depth - childCount + 1) else none

theorem depthAfter_expand (kind : Combine) (scripts : List NativeScript) (work : List Action)
    (depth : Nat) : depthAfter (expand kind scripts work) depth = depthAfter work (depth + 1) := by
  have hevals : ∀ depth rest, depthAfter (scripts.map .eval ++ rest) depth =
      depthAfter rest (depth + scripts.length) := by
    induction scripts with
    | nil => exact fun _ _ => rfl
    | cons script more ih =>
      intro depth rest
      rw [List.map_cons, List.cons_append, depthAfter, ih, List.length_cons, Nat.add_right_comm,
        Nat.add_assoc]
  rw [expand, hevals, depthAfter, if_pos (Nat.le_add_left _ _), Nat.add_sub_cancel]

/-- A round changes neither what the loop returns nor how many results will be left. -/
theorem visits_spec {script : NativeScript} {work : List Action} {results : List Bool}
    (hvisits : Visits ctx script work results) :
    evaluateLoop ctx work results = [satisfied ctx script] ∧
      depthAfter work results.length = some 1 := by
  induction hvisits with
  | start => exact ⟨by rw [evaluateLoop_eval, evaluateLoop], rfl⟩
  | @round action work results _ ih =>
    obtain ⟨hloop, hdepth⟩ := ih
    cases action with
    | eval script =>
      rw [depthAfter] at hdepth
      cases script <;> rw [evaluateLoop] at hloop <;> refine ⟨hloop, ?_⟩
      case scriptAll | scriptAny | scriptNOfK => exact (depthAfter_expand _ _ work _).trans hdepth
      all_goals exact hdepth
    | combine kind childCount =>
      rw [evaluateLoop] at hloop
      rw [depthAfter] at hdepth
      split at hdepth
      · exact ⟨hloop, by rw [round, List.length_cons, List.length_drop, hdepth]⟩
      · cases hdepth

/-- **The evaluator is the recursive definition.**  The verdict by recursion asks for all, any or
at least `n` of the sub-scripts, with a negative `n` read as 0.  From all stacks on its way the loop
ends with this verdict as the one result, and no combination takes more results than there are. -/
theorem evaluateNativeScript_refines (script : NativeScript) (ctx : NativeScriptContext) :
    script.evaluateNativeScript ctx = some (satisfied ctx script) ∧
      (∀ scripts, satisfied ctx (.scriptAll scripts) = scripts.all (satisfied ctx) ∧
        satisfied ctx (.scriptAny scripts) = scripts.any (satisfied ctx) ∧
        ∀ n, satisfied ctx (.scriptNOfK n scripts) =
          decide (max n.toInt 0 ≤ scripts.countP (satisfied ctx))) ∧
      (∀ work results, Visits ctx script work results →
        evaluateLoop ctx work results = [satisfied ctx script]) ∧
      ∀ kind childCount work results,
        Visits ctx script (.combine kind childCount :: work) results →
          childCount ≤ results.length := by
  refine ⟨evaluateNativeScript_eq script ctx, fun scripts => ?_,
    fun _ _ hvisits => (visits_spec ctx hvisits).1, fun _ _ _ _ hvisits => ?_⟩
  · have hcount : countSatisfied ctx scripts = scripts.countP (satisfied ctx) := by
      rw [countSatisfied_eq_count, List.count, List.countP_map]
      simp [Function.comp_def]
    refine ⟨?_, ?_, fun n => ?_⟩ <;> rw [satisfied, hcount, Bool.eq_iff_iff]
    · simp [Combine.verdict, List.countP_eq_length]
    · simp [Combine.verdict, List.countP_pos_iff]
    · simp only [Combine.verdict, decide_eq_true_eq]
      unfold required
      omega
  · have hdepth := (visits_spec ctx hvisits).2
    rw [depthAfter] at hdepth
    split at hdepth
    · assumption
    · cases hdepth

/-! ## Validation of a transaction's native scripts -/

/-- What is read of a decoded witness set. -/
structure ScriptWitnesses where
  witnesses : WitnessSet
  nativeScripts : List NativeScript

/-- Scripts by their hash; a later one replaces an earlier one. -/
def scriptMap (nativeScriptHash : NativeScript → Hash28) (scripts : List NativeScript) :
    KeyedMap Hash28 NativeScript :=
  scripts.foldl (fun map script => map.insert (nativeScriptHash script) script) ∅

/-- One required hash; one that no native script has is left to the Plutus rules. -/
def validateRequired (scripts : KeyedMap Hash28 NativeScript) (ctx : NativeScriptContext)
    (nativeSatisfied : List Hash28) (requiredHash : Hash28) : Result (List Hash28) :=
  match scripts.lookup requiredHash with
  | none => .ok nativeSatisfied
  | some script =>
    match script.evaluateNativeScript ctx with
    | none => .error .panicked
    | some false => reject (.nativeScriptFailed requiredHash)
    | some true => .ok (nativeSatisfied ++ [requiredHash])

/-- The required hashes are met in some order; the hashes of satisfied scripts are returned. -/
def validateNativeScriptsIfPresent (crypto : Crypto)
    (fromCborBytes : Bytes → Result ScriptWitnesses) (nativeScriptHash : NativeScript → Hash28)
    (witnessBytes : Option Bytes) (requiredScriptHashes : List Hash28) (currentSlot : SlotNo) :
    Result (List Hash28) :=
  if requiredScriptHashes = [] then .ok []
  else
    match witnessBytes with
    | none => .ok []
    | some bytes => do
      let decoded ← fromCborBytes bytes
      requiredScriptHashes.foldlM
        (validateRequired (scriptMap nativeScriptHash decoded.nativeScripts)
          { vkeyHashes := decoded.witnesses.vkeyHashes crypto, currentSlot }) []

/-! ## Verdicts over a validity interval -/

mutual

/-- The slots that the time locks of a script name. -/
def lockSlots : NativeScript → List SlotNo
  | .invalidBefore slot | .invalidHereafter slot => [slot]
  | .scriptAll scripts | .scriptAny scripts | .scriptNOfK _ scripts => lockSlotsOfAll scripts
  | .scriptPubkey _ => []

def lockSlotsOfAll : List NativeScript → List SlotNo
  | [] => []
  | script :: rest => script.lockSlots ++ lockSlotsOfAll rest

end

section

variable (signers : List Hash28)

/-- The context of an evaluation at a slot. -/
def contextAt (slot : SlotNo) : NativeScriptContext where
  vkeyHashes := signers
  currentSlot := slot

mutual

/-- The verdict only depends on which of the script's locks the slot has reached. -/
theorem satisfied_congr {slot other : SlotNo} (script : NativeScript)
    (hsame : ∀ lock ∈ script.lockSlots, (lock ≤ slot ↔ lock ≤ other)) :
    satisfied (contextAt signers slot) script = satisfied (contextAt signers other) script := by
  cases script with
  | scriptPubkey keyHash => rw [satisfied, satisfied, contextAt, contextAt]
  | invalidBefore lock =>
    have hlock := hsame lock (by simp [lockSlots])
    rw [satisfied]
    exact decide_eq_decide.mpr hlock
  | invalidHereafter lock =>
    have hlock := hsame lock (by simp [lockSlots])
    rw [satisfied]
    refine decide_eq_decide.mpr ?_
    change slot < lock ↔ other < lock
    rw [← UInt64.not_le, ← UInt64.not_le, hlock]
  | scriptAll scripts =>
    rw [satisfied, satisfied, countSatisfied_congr scripts hsame]
  | scriptAny scripts | scriptNOfK n scripts =>
    rw [satisfied, satisfied, countSatisfied_congr scripts hsame]

theorem countSatisfied_congr {slot other : SlotNo} (scripts : List NativeScript)
    (hsame : ∀ lock ∈ lockSlotsOfAll scripts, (lock ≤ slot ↔ lock ≤ other)) :
    countSatisfied (contextAt signers slot) scripts =
      countSatisfied (contextAt signers other) scripts := by
  cases scripts with
  | nil => rfl
  | cons script rest =>
    rw [lockSlotsOfAll] at hsame
    rw [countSatisfied, countSatisfied,
      satisfied_congr script fun lock hlock => hsame lock (List.mem_append_left _ hlock),
      countSatisfied_congr rest fun lock hlock => hsame lock (List.mem_append_right _ hlock)]

end

end

/-- The slot lies in the validity interval; the upper bound is excluded. -/
def Within (start ttl : Option SlotNo) (slot : SlotNo) : Prop :=
  start.getD 0 ≤ slot ∧ ∀ bound ∈ ttl, slot < bound

/-- The lock opens or closes between two slots of the validity interval. -/
def StrictlyInside (start ttl : Option SlotNo) (lock : SlotNo) : Prop :=
  start.getD 0 < lock ∧ ∀ bound ∈ ttl, lock < bound

/-- A lock that is not strictly inside is reached by all slots of the interval or by none. -/
theorem le_iff_start {start ttl : Option SlotNo} {lock slot : SlotNo}
    (hlock : ¬StrictlyInside start ttl lock) (hslot : Within start ttl slot) :
    lock ≤ slot ↔ lock ≤ start.getD 0 := by
  refine ⟨fun hreached => UInt64.not_lt.mp fun hstart => hlock ⟨hstart, ?_⟩,
    fun hstart => UInt64.le_trans hstart hslot.1⟩
  exact fun bound hbound => UInt64.lt_of_le_of_lt hreached (hslot.2 bound hbound)

/-- **Native-script verdicts over a validity interval.**  All scripts with the given locks, whoever
signed, have the same verdict at any two slots of the interval exactly when none of the locks lies
strictly inside the interval. -/
theorem verdict_slot_free_iff (start ttl : Option SlotNo) (locks : List SlotNo) :
    (∀ (signers : List Hash28) (script : NativeScript), script.lockSlots ⊆ locks →
      ∀ slot other, Within start ttl slot → Within start ttl other →
        script.evaluateNativeScript (contextAt signers slot) =
          script.evaluateNativeScript (contextAt signers other)) ↔
    ∀ lock ∈ locks, ¬StrictlyInside start ttl lock := by
  constructor
  · rintro hfree lock hlock ⟨hstart, httl⟩
    -- the lock alone fails at the start of the interval and holds at its own slot
    have hsame := hfree [] (.invalidBefore lock) (by simpa [lockSlots] using hlock)
      (start.getD 0) lock
      ⟨UInt64.le_refl _, fun bound hbound => UInt64.lt_trans hstart (httl bound hbound)⟩
      ⟨UInt64.le_of_lt hstart, httl⟩
    rw [evaluateNativeScript_eq, evaluateNativeScript_eq, Option.some.injEq, satisfied, satisfied,
      decide_eq_decide] at hsame
    exact UInt64.not_le.mpr hstart (hsame.mpr (UInt64.le_refl _))
  · intro houtside signers script hlocks slot other hslot hother
    rw [evaluateNativeScript_eq, evaluateNativeScript_eq, satisfied_congr signers script]
    intro lock hlock
    have hlock := houtside lock (hlocks hlock)
    rw [le_iff_start hlock hslot, le_iff_start hlock hother]

/-- A transaction whose only script is a lock at slot 10. -/
def lockedWitnesses : ScriptWitnesses where
  witnesses := { vkeyWitnesses := [], bootstrapWitnesses := [], redeemers := [] }
  nativeScripts := [.invalidBefore 10]

/-- Validation of that transaction at a slot. -/
def validateLocked (slot : SlotNo) : Result (List Hash28) :=
  validateNativeScriptsIfPresent ⟨fun _ => 0, fun _ => 0, fun _ _ _ => true⟩
    (fun _ => .ok lockedWitnesses) (fun _ => 7) (some []) [7] slot

/-- With the interval from 5 to 20, the lock at 10 fails at slot 6 and holds at slot 12. -/
theorem lock_inside_interval_depends_on_slot :
    Within (some 5) (some 20) 6 ∧ Within (some 5) (some 20) 12 ∧
      (invalidBefore 10).evaluateNativeScript (contextAt [] 6) = some false ∧
      (invalidBefore 10).evaluateNativeScript (contextAt [] 12) = some true ∧
      validateLocked 6 = reject (.nativeScriptFailed 7) ∧ validateLocked 12 = .ok [7] := by
  have hlookup : (scriptMap (fun _ => 7) lockedWitnesses.nativeScripts).lookup 7 =
      some (invalidBefore 10) := rfl
  have hearly : (invalidBefore 10).evaluateNativeScript (contextAt [] 6) = some false :=
    evaluateNativeScript_eq _ _
  have hlate : (invalidBefore 10).evaluateNativeScript (contextAt [] 12) = some true :=
    evaluateNativeScript_eq _ _
  refine ⟨⟨by decide, by simp⟩, ⟨by decide, by simp⟩, hearly, hlate, ?_, ?_⟩
  · change validateRequired _ (contextAt [] 6) [] 7 >>= _ = _
    rw [validateRequired, hlookup]
    simp only [hearly]
    rfl
  · change validateRequired _ (contextAt [] 12) [] 7 >>= _ = _
    rw [validateRequired, hlookup]
    simp only [hlate]
    rfl

end NativeScript
end Yggdrasil.Ledger
