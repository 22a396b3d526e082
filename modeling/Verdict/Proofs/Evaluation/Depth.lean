import Verdict.Proofs.Evaluation.Meaning

/-!
# How deep an evaluation goes

An evaluation calls itself for the members of a group, for what is negated, and for the condition
that takes the place of a reference. The last of these may be larger than the reference, but it
puts a name on the chain that was not there, and only stored names come to be there. So the depth
of the condition and of all stored conditions that are not on the chain bound the calls, whatever
circles there are among the references.
-/
namespace Verdict
open Verdict.Condition

namespace Condition

mutual

/-- How many conditions lie inside each other, references not expanded. -/
def depth : Condition → Nat
  | group _ _ cs => depthAll cs + 1
  | not _ c => depth c + 1
  | reference _ => 1
  | leaf _ => 1

def depthAll : List Condition → Nat
  | [] => 0
  | c :: cs => (depth c).max (depthAll cs)

end

theorem depth_pos (c : Condition) : 0 < c.depth := by
  cases c <;> rw [depth] <;> omega

theorem depth_le_depthAll {c : Condition} {cs : List Condition} (h : c ∈ cs) :
    c.depth ≤ depthAll cs := by
  induction cs with
  | nil => cases h
  | cons c' cs ih =>
    rw [depthAll]
    rcases List.mem_cons.1 h with rfl | h
    · exact Nat.le_max_left _ _
    · exact Nat.le_trans (ih h) (Nat.le_max_right _ _)

mutual

theorem depth_clear : ∀ c : Condition, c.clear.depth = c.depth
  | group _ _ cs => by rw [clear, depth, depth, depthAll_clearAll cs]
  | not _ c => by rw [clear, depth, depth, depth_clear c]
  | reference _ => by rw [clear]
  | leaf _ => by rw [clear, depth, depth]

theorem depthAll_clearAll : ∀ cs : List Condition, depthAll (clearAll cs) = depthAll cs
  | [] => by rw [clearAll]
  | c :: cs => by rw [clearAll, depthAll, depthAll, depth_clear c, depthAll_clearAll cs]

end

theorem depth_inherit (c : Condition) (r : Reference) : (c.inherit r).depth = c.depth := by
  cases c <;> rw [inherit, depth, depth]

end Condition

namespace Engine
variable {σ : Type} {e : Engine} {p : Provider σ}

theorem depth_realize (stored : Condition) (r : Reference) :
    (realize stored r).depth = stored.depth := by
  rw [realize, depth_inherit, depth_clear]

/-- Evaluating the first condition inside the first chain calls for the second inside the second. -/
inductive Calls (e : Engine) : List String → Condition → List String → Condition → Prop
  | member {chain : List String} {q : Quantifier} {h : Heading} {cs : List Condition}
      {c : Condition} (hc : c ∈ cs) : Calls e chain (.group q h cs) chain c
  | negated {chain : List String} {h : Heading} {c : Condition} :
      Calls e chain (.not h c) chain c
  | expansion {chain : List String} {r : Reference} {stored : Condition}
      (hnew : r.condition ∉ chain) (hget : e.conditions.get? r.condition = some stored) :
      Calls e chain (.reference r) (chain ++ [r.condition]) (realize stored r)

/-- A call inside so many others, the outermost for the condition `c` and an empty chain. -/
inductive Reaches (e : Engine) (c : Condition) : Nat → List String → Condition → Prop
  | start : Reaches e c 0 [] c
  | call {n : Nat} {chain chain' : List String} {c' c'' : Condition}
      (h : Reaches e c n chain c') (hcall : e.Calls chain c' chain' c'') :
      Reaches e c (n + 1) chain' c''

/-- The chain of a call: different names of stored conditions. -/
structure Expanding (e : Engine) (chain : List String) : Prop where
  nodup : chain.Nodup
  stored : ∀ name ∈ chain, e.conditions.contains name
  length_le : chain.length + (e.unexpanded chain).length ≤ e.conditions.size

theorem expanding_nil (e : Engine) : e.Expanding [] where
  nodup := List.nodup_nil
  stored := nofun
  length_le := by
    have hall : (e.unexpanded []).length ≤ e.conditions.keys.length := List.length_filter_le _ _
    rw [Table.keys, List.length_map] at hall
    simpa [Table.size] using hall

theorem Expanding.append {chain : List String} (h : e.Expanding chain) {name : String}
    {stored : Condition} (hnew : name ∉ chain) (hget : e.conditions.get? name = some stored) :
    e.Expanding (chain ++ [name]) where
  nodup := by
    refine List.nodup_append.2 ⟨h.nodup, List.nodup_cons.2 ⟨List.not_mem_nil, List.nodup_nil⟩, ?_⟩
    intro name' hmem name'' hmem' he
    rw [List.mem_singleton.1 hmem'] at he
    exact hnew (he ▸ hmem)
  stored := by
    intro name' hmem
    rcases List.mem_append.1 hmem with hmem | hmem
    · exact h.stored name' hmem
    · rw [List.mem_singleton.1 hmem]
      exact Option.isSome_iff_exists.2 ⟨stored, hget⟩
  length_le := by
    have hfewer := e.unexpanded_append_lt hnew hget
    have hbefore := h.length_le
    rw [List.length_append, List.length_singleton]
    omega

theorem Expanding.of_calls {chain chain' : List String} {c c' : Condition}
    (h : e.Expanding chain) (hcall : e.Calls chain c chain' c') : e.Expanding chain' := by
  cases hcall with
  | member _ => exact h
  | negated => exact h
  | expansion hnew hget => exact h.append hnew hget

theorem Reaches.expanding {c c' : Condition} {n : Nat} {chain : List String}
    (h : e.Reaches c n chain c') : e.Expanding chain := by
  induction h with
  | start => exact e.expanding_nil
  | call _ hcall ih => exact ih.of_calls hcall

/-- The depths of the entries whose names are not on the chain, one after the other. -/
def depthBeyond (chain : List String) : List (String × Condition) → Nat
  | [] => 0
  | (name, c) :: rest => (if chain.contains name then 0 else c.depth) + depthBeyond chain rest

theorem depthBeyond_append_le (chain : List String) (name : String)
    (l : List (String × Condition)) :
    depthBeyond (chain ++ [name]) l ≤ depthBeyond chain l := by
  induction l with
  | nil => exact Nat.le_refl 0
  | cons entry rest ih =>
    rw [depthBeyond, depthBeyond]
    by_cases h : entry.1 ∈ chain
    · simpa [h] using ih
    · by_cases h' : entry.1 = name
      · simp [h']
        omega
      · simpa [h, h'] using ih

/-- A name that comes onto the chain takes the depth of its condition away. -/
theorem depthBeyond_append_add_le {chain : List String} {name : String} {stored : Condition}
    {l : List (String × Condition)} (hnew : name ∉ chain)
    (hget : Table.lookup name l = some stored) :
    depthBeyond (chain ++ [name]) l + stored.depth ≤ depthBeyond chain l := by
  induction l with
  | nil => cases hget
  | cons entry rest ih =>
    rw [depthBeyond, depthBeyond]
    by_cases h : name = entry.1
    · subst h
      obtain rfl : entry.2 = stored := by simpa [Table.lookup] using hget
      have hrest := depthBeyond_append_le chain entry.1 rest
      simp [hnew]
      omega
    · have hrest := ih (by simpa [Table.lookup, h] using hget)
      have hsame : (chain ++ [name]).contains entry.1 = chain.contains entry.1 := by
        simp [Ne.symm h]
      rw [hsame]
      omega

/-- More than the calls that lie inside each other below this one. -/
def callDepth (e : Engine) (chain : List String) (c : Condition) : Nat :=
  c.depth + depthBeyond chain e.conditions.entries

theorem Calls.callDepth_lt {chain chain' : List String} {c c' : Condition}
    (h : e.Calls chain c chain' c') : e.callDepth chain' c' < e.callDepth chain c := by
  cases h with
  | member hc =>
    have := depth_le_depthAll hc
    rw [callDepth, callDepth, depth]
    omega
  | negated =>
    rw [callDepth, callDepth, depth]
    omega
  | expansion hnew hget =>
    have := depthBeyond_append_add_le hnew hget
    rw [callDepth, callDepth, depth_realize, depth]
    omega

/-- What holds of a call if it holds of all that it calls for holds of every call. -/
theorem calls_induction (e : Engine) {motive : List String → Condition → Prop}
    (call : ∀ chain c, (∀ chain' c', e.Calls chain c chain' c' → motive chain' c') →
      motive chain c) (chain : List String) (c : Condition) : motive chain c := by
  induction hn : e.callDepth chain c using Nat.strongRecOn generalizing chain c with
  | ind n ih => exact call chain c fun chain' c' h => ih _ (hn ▸ h.callDepth_lt) chain' c' rfl

theorem Reaches.callDepth_le {c c' : Condition} {n : Nat} {chain : List String}
    (h : e.Reaches c n chain c') : n + e.callDepth chain c' ≤ e.callDepth [] c := by
  induction h with
  | start => exact Nat.le_of_eq (Nat.zero_add _)
  | call _ hcall ih =>
    have := hcall.callDepth_lt
    omega

/-- What evaluates a condition inside a chain. -/
abbrev Evaluator (σ : Type) := List String → Condition → Action (World σ) (Bool × Condition)

/-- One call of the evaluation; `inner` stands for the calls that it makes. -/
def evaluateBy (e : Engine) (p : Provider σ) (inner : Evaluator σ) : Evaluator σ
  | chain, .group q h cs => do
    let w ← .state
    let (verdict, cs) ← Schedule.run q.neutral (cs.map fun c =>
      ⟨effectivePriority p w.facts c, c, inner chain c⟩)
    return (verdict, .group q h cs)
  | chain, .not h c => do
    let (verdict, c) ← inner chain c
    return (!verdict, .not h c)
  | _, .leaf l => do
    let o ← l.observe p
    return (o.result, .leaf (l.record o))
  | chain, .reference r =>
    if r.condition ∈ chain then .fail (.circularReference (chain ++ [r.condition]))
    else
      match e.conditions.get? r.condition with
      | some stored => inner (chain ++ [r.condition]) (realize stored r)
      | none =>
        if e.policy.allowUndefinedConditions then
          return (false, .reference { r with extra := r.extra.insert "result" (.bool false) })
        else .fail (.undefinedCondition r.condition)

/-- Evaluation is what makes itself its calls. -/
theorem evaluateBy_evaluate (chain : List String) (c : Condition) :
    e.evaluateBy p (e.evaluate p) chain c = e.evaluate p chain c := by
  cases c with
  | group q h cs => rw [evaluate, evaluateBy]
  | not h c => rw [evaluate, evaluateBy]
  | leaf l => rw [evaluate, evaluateBy]
  | reference r =>
    rw [evaluateBy]
    by_cases hmem : r.condition ∈ chain
    · rw [if_pos hmem, evaluate_of_mem hmem]
    · rw [if_neg hmem]
      cases hget : e.conditions.get? r.condition with
      | none => exact (evaluate_of_get?_eq_none hmem hget).symm
      | some stored => exact (evaluate_of_get? hmem hget).symm

theorem evaluateBy_congr {inner inner' : Evaluator σ} {chain : List String} {c : Condition}
    (h : ∀ chain' c', e.Calls chain c chain' c' → inner chain' c' = inner' chain' c') :
    e.evaluateBy p inner chain c = e.evaluateBy p inner' chain c := by
  cases c with
  | group q heading cs =>
    have hmembers (w : World σ) :
        (cs.map fun c => (⟨effectivePriority p w.facts c, c, inner chain c⟩ :
          Task (World σ) Condition)) =
        cs.map fun c => ⟨effectivePriority p w.facts c, c, inner' chain c⟩ :=
      List.map_congr_left fun c hc => by rw [h chain c (.member hc)]
    simp only [evaluateBy, hmembers]
  | not heading c => simp only [evaluateBy, h chain c .negated]
  | leaf l => rfl
  | reference r =>
    simp only [evaluateBy]
    by_cases hmem : r.condition ∈ chain
    · rw [if_pos hmem, if_pos hmem]
    · rw [if_neg hmem, if_neg hmem]
      cases hget : e.conditions.get? r.condition with
      | none => rfl
      | some stored => exact h _ _ (.expansion hmem hget)

/-- The evaluation written out to a number of nested calls, with `rest` for the calls below. -/
def unroll (e : Engine) (p : Provider σ) (rest : Evaluator σ) : Nat → Evaluator σ
  | 0 => rest
  | n + 1 => e.evaluateBy p (unroll e p rest n)

/-- Written out to its depth, an evaluation does not come to the calls below. -/
theorem unroll_eq_evaluate (rest : Evaluator σ) {n : Nat} {chain : List String} {c : Condition}
    (h : e.callDepth chain c ≤ n) : e.unroll p rest n chain c = e.evaluate p chain c := by
  induction n generalizing chain c with
  | zero =>
    have := depth_pos c
    rw [callDepth] at h
    omega
  | succ n ih =>
    rw [unroll, ← evaluateBy_evaluate]
    refine evaluateBy_congr fun chain' c' hcall => ih ?_
    have := hcall.callDepth_lt
    omega

/-- A group of two conditions, of which the second comes first, written out. -/
theorem evaluate_pair (rest : Evaluator σ) {n : Nat} {chain : List String} {q : Quantifier}
    {h : Heading} {c c' : Condition} (hn : e.callDepth chain (.group q h [c, c']) ≤ n + 1)
    (hlt : ∀ facts, c.effectivePriority p facts < c'.effectivePriority p facts) :
    e.evaluate p chain (.group q h [c, c']) = (do
      let w ← .state
      let slot (c : Condition) : Slot (World σ) Condition :=
        .waiting ⟨c.effectivePriority p w.facts, c, e.unroll p rest n chain c⟩
      let v ← Schedule.rounds q.neutral
        [c'.effectivePriority p w.facts, c.effectivePriority p w.facts] [slot c, slot c']
      return (v.1, .group q h (v.2.map (·.subject)))) := by
  rw [← unroll_eq_evaluate rest hn, unroll, evaluateBy]
  refine bind_congr fun w => ?_
  let task (c : Condition) : Task (World σ) Condition :=
    ⟨c.effectivePriority p w.facts, c, e.unroll p rest n chain c⟩
  have hpriorities : Schedule.priorities [task c, task c'] =
      [(task c').priority, (task c).priority] := Schedule.priorities_pair (hlt w.facts)
  change (Schedule.run q.neutral [task c, task c'] >>= fun v => _) = _
  rw [Schedule.run, hpriorities, bind_assoc]
  rfl

/-- Every evaluation ends. Each call inside others has a chain of different names, all of them of
stored conditions, so no more references are expanded around it than there are such names; and the
calls inside each other are fewer than `callDepth`. Hence the run of an evaluation that is written
out so far ends with a result or a fault, and with the same, whatever is put for the calls below. -/
theorem evaluation_bounded (e : Engine) (p : Provider σ) (c : Condition) :
    (∀ n chain c', e.Reaches c n chain c' →
      chain.Nodup ∧ (∀ name ∈ chain, e.conditions.contains name) ∧
        chain.length ≤ e.conditions.size ∧ n < e.callDepth [] c) ∧
    ∀ w : World σ, ∃ (outcome : Except Fault (Bool × Condition)) (w' : World σ),
      (e.evaluate p [] c).run w = (outcome, w') ∧
        ∀ n, e.callDepth [] c ≤ n → ∀ rest, (e.unroll p rest n [] c).run w = (outcome, w') := by
  refine ⟨fun n chain c' h => ?_, fun w => ?_⟩
  · have hchain := h.expanding
    have hdepth := h.callDepth_le
    have hpos := depth_pos c'
    have hlength := hchain.length_le
    refine ⟨hchain.nodup, hchain.stored, by omega, ?_⟩
    rw [callDepth] at hdepth
    omega
  · refine ⟨_, _, rfl, fun n hn rest => ?_⟩
    rw [unroll_eq_evaluate rest hn]

end Engine
end Verdict
