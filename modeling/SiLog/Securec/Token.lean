import SiLog.Lib.Lts
import SiLog.Lib.Runs
import SiLog.Securec

/-! # Tokens (`strtok_s` of `silog_securec.c`)

    A pointer into the array is an index, and `none` is a NULL pointer.  A call
    skips delimiters, returns the start of the token behind them, puts a NUL
    over the delimiter that ends the token, and leaves the pointer behind that.
    When the string ends the pointer is NULL, and from then on every call
    returns NULL.
-/

open Lts Printf Runs

namespace SiLog.Securec

/-! ## Section 1: The function -/

/-- The loops of `strtok_s`: how far the pointer moves.  `none` if it leaves the array. -/
def advance (go : UInt8 → Bool) : List UInt8 → Option ℕ
  | [] => none
  | c :: rest => if c ≠ 0 ∧ go c then (advance go rest).map (· + 1) else some 0

/-- `strtok_s`: what it returns, the array and `*context`; `none` for `context` is a NULL pointer,
    and as the result undefined behaviour. -/
def strtokS (buf : List UInt8) (strToken : Option ℕ) (strDelimit : Option (List UInt8))
    (context : Option (Option ℕ)) : Option (Option ℕ × List UInt8 × Option (Option ℕ)) :=
  match context, strDelimit with
  | some context, some strDelimit =>
    match strToken.or context with
    | none => some (none, buf, some none)
    | some start => do
      let skipped ← advance (fun c => decide (c ∈ strDelimit)) (buf.drop start)
      let token := start + skipped
      if buf[token]? = some 0 then return (none, buf, some none)
      let length ← advance (fun c => decide (c ∉ strDelimit)) (buf.drop token)
      let stop := token + length
      if buf[stop]? ≠ some 0 then return (some token, buf.set stop 0, some (some (stop + 1)))
      return (some token, buf, some none)
  | context, _ => some (none, buf, context)

/-- The array and the context that a program keeps between its calls. -/
structure Tokens where
  buf     : List UInt8
  context : Option ℕ

def Tokens.call (strDelimit : List UInt8) (s : Tokens) (strToken : Option ℕ) :
    Option (Option ℕ × Tokens) :=
  (strtokS s.buf strToken (some strDelimit) (some s.context)).bind fun (token, buf, context) =>
    context.map fun context => (token, ⟨buf, context⟩)

/-! ## Section 2: One call -/

section call
variable {go : UInt8 → Bool} {a d t rest front behind delimiters buf : List UInt8} {c x : UInt8}
  {strToken context : Option ℕ}

theorem advance_eq (ha : ∀ c ∈ a, c ≠ 0 ∧ go c = true) (hc : ¬ (c ≠ 0 ∧ go c = true)) :
    advance go (a ++ c :: rest) = some a.length := by
  induction a with
  | nil => exact if_neg hc
  | cons b a ih =>
    obtain ⟨hb, ha⟩ := List.forall_mem_cons.mp ha
    rw [List.cons_append, advance, if_pos hb, ih ha]
    rfl

/-- Delimiters are skipped up to a byte that is not one. -/
theorem skip_eq (hnul : 0 ∉ d) (hd : ∀ c ∈ d, c ∈ delimiters) (hc : c = 0 ∨ c ∉ delimiters) :
    advance (fun c => decide (c ∈ delimiters)) (d ++ c :: rest) = some d.length := by
  apply advance_eq
  · intro b hb
    exact ⟨fun h => hnul (h ▸ hb), decide_eq_true (hd b hb)⟩
  · rintro ⟨hne, hmem⟩
    exact hc.elim hne fun h => h (of_decide_eq_true hmem)

theorem token_eq (hnul : 0 ∉ t) (ht : ∀ c ∈ t, c ∉ delimiters) (hc : c = 0 ∨ c ∈ delimiters) :
    advance (fun c => decide (c ∉ delimiters)) (t ++ c :: rest) = some t.length := by
  apply advance_eq
  · intro b hb
    exact ⟨fun h => hnul (h ▸ hb), decide_eq_true (ht b hb)⟩
  · rintro ⟨hne, hmem⟩
    exact hc.elim hne fun h => of_decide_eq_true hmem h

/-- A string without a token: the call returns NULL and clears the context. -/
theorem call_nil (hstart : strToken.or context = some front.length) (hnul : 0 ∉ d)
    (hd : ∀ c ∈ d, c ∈ delimiters) :
    Tokens.call delimiters ⟨front ++ (d ++ 0 :: behind), context⟩ strToken =
      some (none, ⟨front ++ (d ++ 0 :: behind), none⟩) := by
  have hskip : advance (fun c => decide (c ∈ delimiters)) (d ++ 0 :: behind) = some d.length :=
    skip_eq hnul hd (Or.inl rfl)
  have hget : (front ++ (d ++ 0 :: behind))[front.length + d.length]? = some 0 := by simp
  unfold Tokens.call strtokS
  simp only [hstart, List.drop_left, hskip, hget, Option.bind_eq_bind, Option.bind_some, if_true]
  rfl

/-- A call that returns the token `t`, up to the NUL or delimiter behind it. -/
theorem call_token (hstart : strToken.or context = some front.length) (hnul : 0 ∉ d ++ t)
    (hd : ∀ c ∈ d, c ∈ delimiters) (hne : t ≠ []) (ht : ∀ c ∈ t, c ∉ delimiters)
    (hc : c = 0 ∨ c ∈ delimiters) :
    Tokens.call delimiters ⟨front ++ (d ++ (t ++ c :: rest)), context⟩ strToken =
      some (some (front.length + d.length),
        if c = 0 then ⟨front ++ (d ++ (t ++ c :: rest)), none⟩
        else ⟨front ++ (d ++ (t ++ 0 :: rest)), some (front.length + d.length + t.length + 1)⟩) := by
  rw [List.mem_append, not_or] at hnul
  have htoken : advance (fun c => decide (c ∉ delimiters)) (t ++ c :: rest) = some t.length :=
    token_eq hnul.2 ht hc
  generalize hbuf : front ++ (d ++ (t ++ c :: rest)) = buf
  have hdrop₁ : buf.drop front.length = d ++ (t ++ c :: rest) := by simp [← hbuf]
  have hdrop₂ : buf.drop (front.length + d.length) = t ++ c :: rest := by simp [← hbuf]
  have hget₂ : buf[front.length + d.length + t.length]? = some c := by simp [← hbuf, Nat.add_assoc]
  have hset : buf.set (front.length + d.length + t.length) 0 = front ++ (d ++ (t ++ 0 :: rest)) := by
    simp [← hbuf, Nat.add_assoc]
  -- the first byte of the token ends the first loop
  obtain ⟨b, t', rfl⟩ := List.exists_cons_of_ne_nil hne
  have hb : b ≠ 0 := fun h => hnul.2 (h ▸ List.mem_cons_self)
  have hskip : advance (fun c => decide (c ∈ delimiters)) (d ++ (b :: t' ++ c :: rest)) = some d.length :=
    skip_eq hnul.1 hd (Or.inr (ht b List.mem_cons_self))
  have hget₁ : buf[front.length + d.length]? = some b := by simp [← hbuf]
  unfold Tokens.call strtokS
  simp only [hstart, hdrop₁, hskip, hdrop₂, htoken, hget₁, hget₂, hset, Option.bind_eq_bind,
    Option.bind_some, ne_eq, Option.some.injEq, if_neg hb]
  by_cases hc0 : c = 0
  · rw [if_neg (not_not.mpr hc0), if_pos hc0]
    rfl
  · rw [if_pos hc0, if_neg hc0]
    rfl

/-- The string stays at an end: no call with NULL returns a token. -/
theorem outputs_end (buf : List UInt8) (n : ℕ) :
    outputs (Tokens.call delimiters) ⟨buf, none⟩ (List.replicate n none) =
      some (List.replicate n none, ⟨buf, none⟩) := by
  induction n with
  | zero => rfl
  | succ n ih => exact outputs_cons rfl ih

/-- The token at the end of `front` is a string. -/
theorem cString_drop (h : front ++ (t ++ [0]) <+: buf) (ht : 0 ∉ t) :
    cString (buf.drop front.length) = some t := by
  obtain ⟨rest, rfl⟩ := h
  rw [List.append_assoc, List.drop_left]
  exact cString_of_prefix (List.prefix_append _ _) ht

end call

/-! ## Section 3: All calls -/

/-- What `n` calls return: the places of the runs, and then NULL. -/
def returned (runs : List (ℕ × List UInt8)) (n : ℕ) : List (Option ℕ) :=
  (List.range n).map fun k => runs[k]?.map Prod.fst

theorem returned_nil (n : ℕ) : returned [] n = List.replicate n none := by
  simp [returned, List.map_const']

theorem returned_cons (run : ℕ × List UInt8) (runs : List (ℕ × List UInt8)) (n : ℕ) :
    returned (run :: runs) (n + 1) = some run.1 :: returned runs n := by
  simp [returned, List.range_succ_eq_map]

section calls
variable {rem front delimiters : List UInt8} {off : ℕ} {runs : List (ℕ × List UInt8)}

/-- The calls from any point on: `front` is what the earlier calls are done with, and stays as it is. -/
theorem outputs_of_found (hfound : Found (· ∈ delimiters) off rem runs) (hoff : off = front.length)
    (hnul : 0 ∉ rem) (behind : List UInt8) {strToken context : Option ℕ}
    (hstart : strToken.or context = some off) (n : ℕ) :
    ∃ s, outputs (Tokens.call delimiters) ⟨front ++ (rem ++ 0 :: behind), context⟩
        (strToken :: List.replicate n none) = some (returned runs (n + 1), s) ∧
      front <+: s.buf ∧ ∀ run ∈ runs.take (n + 1), cString (s.buf.drop run.1) = some run.2 := by
  induction hfound generalizing front strToken context n with
  | @nil off d hd =>
    subst hoff
    have hcall : Tokens.call delimiters ⟨front ++ (d ++ 0 :: behind), context⟩ strToken = _ :=
      call_nil hstart hnul hd
    have hcalls := outputs_cons hcall (outputs_end _ n)
    rw [returned_nil]
    exact ⟨_, hcalls, List.prefix_append _ _, by simp⟩
  | @last off d t hd hne ht =>
    subst hoff
    have hcall : Tokens.call delimiters ⟨front ++ (d ++ (t ++ 0 :: behind)), context⟩ strToken = _ :=
      call_token hstart hnul hd hne ht (Or.inl rfl)
    rw [if_pos rfl] at hcall
    have hcalls := outputs_cons hcall (outputs_end _ n)
    rw [List.mem_append, not_or] at hnul
    have hend : (front ++ d) ++ (t ++ [0]) <+: front ++ (d ++ (t ++ 0 :: behind)) :=
      ⟨behind, by simp⟩
    have htoken := cString_drop hend hnul.2
    rw [List.length_append] at htoken
    rw [returned_cons, returned_nil, List.append_assoc d]
    refine ⟨_, hcalls, List.prefix_append _ _, ?_⟩
    intro run hrun
    obtain rfl := List.mem_singleton.mp (List.mem_of_mem_take hrun)
    exact htoken
  | @cons off d t x rest runs hd hne ht hx _ ih =>
    subst hoff
    rw [List.mem_append, List.mem_append, List.mem_cons, not_or, not_or, not_or] at hnul
    obtain ⟨hd0, ht0, hx0, hrest0⟩ := hnul
    have hdt : 0 ∉ d ++ t := by
      rw [List.mem_append, not_or]
      exact ⟨hd0, ht0⟩
    have hcall : Tokens.call delimiters ⟨front ++ (d ++ (t ++ x :: (rest ++ 0 :: behind))), context⟩
        strToken = _ :=
      call_token hstart hdt hd hne ht (Or.inr hx)
    rw [if_neg (Ne.symm hx0)] at hcall
    have hbuf : front ++ (d ++ (t ++ x :: rest) ++ 0 :: behind) =
        front ++ (d ++ (t ++ x :: (rest ++ 0 :: behind))) := by simp
    have hbuf' : front ++ (d ++ (t ++ 0 :: (rest ++ 0 :: behind))) =
        (front ++ d ++ (t ++ [0])) ++ (rest ++ 0 :: behind) := by simp
    rw [hbuf, returned_cons]
    -- the calls behind this one keep the token
    obtain ⟨s, hcalls, hfront, hruns⟩ : ∃ s, outputs (Tokens.call delimiters)
        ⟨front ++ (d ++ (t ++ 0 :: (rest ++ 0 :: behind))), some (front.length + d.length + t.length + 1)⟩
        (List.replicate n none) = some (returned runs n, s) ∧ front ++ d ++ (t ++ [0]) <+: s.buf ∧
        ∀ run ∈ runs.take n, cString (s.buf.drop run.1) = some run.2 := by
      rw [hbuf']
      cases n with
      | zero => exact ⟨_, rfl, List.prefix_append _ _, by simp⟩
      | succ n =>
        apply ih
        · simp [Nat.add_assoc]
        · exact hrest0
        · rfl
    have htoken := cString_drop hfront ht0
    rw [List.length_append] at htoken
    refine ⟨s, outputs_cons hcall hcalls, ?_, ?_⟩
    · rw [List.append_assoc] at hfront
      exact (List.prefix_append _ _).trans hfront
    · rw [List.take_succ_cons]
      exact List.forall_mem_cons.mpr ⟨htoken, hruns⟩

/-- **`strtok_s` splits a string.** On every string and every set of delimiters, whatever stands behind
    the string and in the context, the calls return the runs of other bytes in their order and
    then NULL for ever, and every token that was returned is a string of its own. -/
theorem strtokS_splits {s : List UInt8} (hnul : 0 ∉ s) (delimiters behind : List UInt8)
    (context : Option ℕ) :
    ∃ runs : List (ℕ × List UInt8),
      (runs.Pairwise fun a b => a.1 < b.1) ∧
      (∀ i r, (i, r) ∈ runs ↔ IsRun (· ∈ delimiters) s i r) ∧
      ∀ n, ∃ s', outputs (Tokens.call delimiters) ⟨s ++ 0 :: behind, context⟩
          (some 0 :: List.replicate n none) = some (returned runs (n + 1), s') ∧
        ∀ run ∈ runs.take (n + 1), cString (s'.buf.drop run.1) = some run.2 := by
  obtain ⟨runs, hfound⟩ := exists_found (· ∈ delimiters) 0 s
  refine ⟨runs, hfound.sorted, fun i r => ?_, fun n => ?_⟩
  · rw [hfound.mem_iff]
    simp
  · have hstart : (some 0).or context = some 0 := rfl
    have hempty : 0 = ([] : List UInt8).length := rfl
    obtain ⟨s', hcalls, _, hruns⟩ := outputs_of_found hfound hempty hnul behind hstart n
    exact ⟨s', hcalls, hruns⟩

end calls

/-- Delimiters at the start, twice, and none at the end. -/
theorem strtokS_splits_repeated :
    (outputs (Tokens.call (ascii ",")) ⟨ascii ",ab,,c" ++ [0], none⟩ (some 0 :: List.replicate 3 none)).map
      Prod.fst = some [some 1, some 5, none, none] ∧
    ∃ runs, (∀ i r, (i, r) ∈ runs ↔ IsRun (· ∈ ascii ",") (ascii ",ab,,c") i r) ∧
      returned runs 4 = [some 1, some 5, none, none] := by
  have hreturned : (outputs (Tokens.call (ascii ",")) ⟨ascii ",ab,,c" ++ [0], none⟩
      (some 0 :: List.replicate 3 none)).map Prod.fst = some [some 1, some 5, none, none] := by decide
  have hnul : 0 ∉ ascii ",ab,,c" := by decide
  obtain ⟨runs, _, hruns, hcalls⟩ := strtokS_splits hnul (ascii ",") [] none
  obtain ⟨s', hcalls, _⟩ := hcalls 3
  rw [hcalls] at hreturned
  refine ⟨?_, runs, hruns, Option.some.inj hreturned⟩
  rw [hcalls]
  exact hreturned

end SiLog.Securec
