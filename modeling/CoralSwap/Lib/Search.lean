import CoralSwap.Lib.Faults

/-!
# Searching for the best candidate

A search values its candidates one after the other and keeps the best so far. A candidate is valued by
calls whose faults are caught; whether they are made stage by stage or hop by hop, the candidate has the
same value.
-/

namespace Host

/-! ### The best candidate -/

namespace Search

variable {α β ε : Type} [LinearOrder β] {value : α → Option β} {candidates : List α}

/-- The first of the candidates with the greatest value, and this value. -/
def best (value : α → Option β) (candidates : List α) : Option (α × β) :=
  (candidates.filterMap fun a => (value a).map (a, ·)).argmax Prod.snd

theorem best_eq_none : best value candidates = none ↔ ∀ a ∈ candidates, value a = none := by
  rw [best, List.argmax_eq_none, List.filterMap_eq_nil_iff]
  exact forall₂_congr fun a _ => Option.map_eq_none_iff

theorem of_best_eq_some {a : α} {b : β} (hbest : best value candidates = some (a, b)) :
    a ∈ candidates ∧ value a = some b ∧ ∀ c ∈ candidates, ∀ d, value c = some d → d ≤ b := by
  obtain ⟨c, hc, hvalue⟩ := List.mem_filterMap.mp (List.argmax_mem hbest)
  obtain ⟨d, hd, hpair⟩ := Option.map_eq_some_iff.mp hvalue
  cases hpair
  refine ⟨hc, hd, fun c hc d hd => ?_⟩
  have hmem : (c, d) ∈ candidates.filterMap fun a => (value a).map (a, ·) :=
    List.mem_filterMap.mpr ⟨c, hc, Option.map_eq_some_iff.mpr ⟨d, hd, rfl⟩⟩
  exact List.le_of_mem_argmax hmem hbest

theorem best_concat_of_none {a : α} (hvalue : value a = none) :
    best value (candidates ++ [a]) = best value candidates := by
  simp [best, hvalue]

theorem best_concat_of_some {a : α} {b : β} (hvalue : value a = some b) :
    best value (candidates ++ [a]) = match best value candidates with
      | none => some (a, b)
      | some c => if c.2 < b then some (a, b) else some c := by
  rw [best, List.filterMap_append]
  simp only [List.filterMap_cons, hvalue, Option.map_some, List.filterMap_nil, List.argmax_concat]
  unfold best
  cases (candidates.filterMap fun a => (value a).map (a, ·)).argmax Prod.snd <;> rfl

/-- A loop that starts below every value, and replaces what it holds by what is strictly better. -/
theorem foldlM_best {round : α × β → α → Call ε (α × β)} {start : α × β}
    (hskip : ∀ held a, a ∈ candidates → value a = none → round held a = .ok held)
    (htake : ∀ held a b, a ∈ candidates → value a = some b →
      round held a = .ok (if held.2 < b then (a, b) else held))
    (hstart : ∀ a ∈ candidates, ∀ b, value a = some b → start.2 < b) :
    candidates.foldlM round start = .ok ((best value candidates).getD start) := by
  induction candidates using List.reverseRecOn with
  | nil => rfl
  | append_singleton candidates a ih =>
      have hpart : ∀ c ∈ candidates, c ∈ candidates ++ [a] := fun c => List.mem_append_left [a]
      have hlast : a ∈ candidates ++ [a] := List.mem_append_right candidates List.mem_cons_self
      have hloop := ih (fun held c hc => hskip held c (hpart c hc))
        (fun held c d hc => htake held c d (hpart c hc)) fun c hc => hstart c (hpart c hc)
      rw [List.foldlM_append, hloop]
      change (round _ a >>= pure) = _
      rw [bind_pure]
      cases hvalue : value a with
      | none => rw [hskip _ a hlast hvalue, best_concat_of_none hvalue]
      | some b =>
          rw [htake _ a b hlast hvalue, best_concat_of_some hvalue]
          cases hbest : best value candidates with
          | none => rw [Option.getD_none, if_pos (hstart a hlast b hvalue), Option.getD_some]
          | some held =>
              simp only [Option.getD_some]
              split_ifs <;> rfl

end Search

/-! ### Stages -/

namespace Call

variable {ε δ α β γ σ : Type}

theorem FailsWith.foldlM {P : Fault ε → Prop} {round : σ → α → Call ε σ} {l : List α} {s : σ}
    (hround : ∀ s a, FailsWith P (round s a)) : FailsWith P (l.foldlM round s) := by
  induction l generalizing s with
  | nil => exact .ret s
  | cons a l ih => exact .bind (hround s a) fun next _ => ih

/-- A fault that is not a trap is caught. -/
theorem attempt_eq {call : Call δ α} (hcall : FailsWith (· ≠ .trap) call) :
    (attempt call : Call ε (Option α)) = .ok call.toOption := by
  rcases call with ⟨code | _⟩ | a
  · rfl
  · exact absurd rfl (hcall .trap rfl)
  · rfl

/-- A stage of calls that return. -/
theorem mapM_eq_map {f : α → Call ε β} {g : α → β} {l : List α} (hcalls : ∀ a, f a = .ok (g a)) :
    l.mapM f = .ok (l.map g) := by
  induction l with
  | nil => rfl
  | cons a l ih =>
      rw [List.mapM_cons, hcalls, ih]
      rfl

theorem mapM_id_map {f : α → Option β} {l : List α} : (l.map f).mapM id = l.mapM f := List.mapM_map

theorem toOption_bind {call : Call ε α} {next : α → Call ε β} :
    (call >>= next).toOption = call.toOption.bind fun a => (next a).toOption := by
  cases call <;> rfl

/-- Two stages over a list have the results of one. -/
theorem mapM_zip_mapM {f : α → Option β} {g : β → α → Option γ} {l : List α} :
    ((l.mapM f).bind fun bs => (bs.zip l).mapM fun item => g item.1 item.2) =
      l.mapM fun a => (f a).bind fun b => g b a := by
  induction l with
  | nil => rfl
  | cons a l ih =>
      rw [List.mapM_cons, List.mapM_cons, ← ih]
      cases f a with
      | none => rfl
      | some b =>
          cases l.mapM f with
          | none => cases hg : g b a <;> simp [hg]
          | some bs => simp [List.mapM_cons]

/-- A stage followed by a loop over its results is a loop. -/
theorem foldlM_mapM {f : α → Option β} {round : σ → β → Option σ} {l : List α} {s : σ} :
    ((l.mapM f).bind fun bs => bs.foldlM round s) =
      l.foldlM (fun s a => (f a).bind fun b => round s b) s := by
  induction l generalizing s with
  | nil => rfl
  | cons a l ih =>
      rw [List.mapM_cons, List.foldlM_cons]
      cases f a with
      | none => rfl
      | some b =>
          cases hround : round s b with
          | none => cases l.mapM f <;> simp [hround]
          | some next =>
              have hrest := ih (s := next)
              cases hl : l.mapM f with
              | none => simpa [hl, hround] using hrest
              | some bs => simpa [hl, hround] using hrest

theorem toOption_foldlM {round : σ → α → Call ε σ} {l : List α} {s : σ} :
    (l.foldlM round s).toOption = l.foldlM (fun s a => (round s a).toOption) s := by
  induction l generalizing s with
  | nil => rfl
  | cons a l ih =>
      rw [List.foldlM_cons, List.foldlM_cons, toOption_bind]
      exact congrArg _ (funext fun next => ih)

end Call

end Host
