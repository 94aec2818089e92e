import SiLog.Pipeline.Moves
import SiLog.Lib.Relay
import Mathlib.Data.List.Forall2

/-! # The pipeline is a relay

    The logging processes are the sources of a relay, and so is everybody
    else who sends to the socket of the daemon.  Nothing in a datagram says
    where it comes from, so the tags that tell it exist only in the proof: a
    run of the system is matched with a run of the relay, and the tagged
    entries of both are the same ones.
-/

open Lts SiLog.Ipc SiLog.Daemon

namespace SiLog.Pipeline

/-! ## Section 1: Tags -/

/-- A datagram: the entry of a process, or what another program sent. -/
inductive Datagram (κ : Type*) where
  | own (p : κ) (e : Entry)
  | other (d : List UInt8)

section datagram
variable {κ : Type*}

def Datagram.bytes : Datagram κ → List UInt8
  | .own _ e => List.ofFn e
  | .other d => d

/-- The entries of the processes in a socket. -/
def owned : List (Datagram κ) → List (κ × Entry) :=
  List.filterMap fun
    | .own p e => some (p, e)
    | .other _ => none

/-- The datagrams of other programs in a socket. -/
def others : List (Datagram κ) → List (List UInt8) :=
  List.filterMap fun
    | .own _ _ => none
    | .other d => some d

variable (p : κ) (e : Entry) (d : List UInt8) (l l' : List (Datagram κ))

@[simp] theorem owned_append : owned (l ++ l') = owned l ++ owned l' := List.filterMap_append
@[simp] theorem others_append : others (l ++ l') = others l ++ others l' := List.filterMap_append
@[simp] theorem owned_own : owned (.own p e :: l) = (p, e) :: owned l := rfl
@[simp] theorem owned_other : owned (.other d :: l) = owned l := rfl
@[simp] theorem others_own : others (.own p e :: l) = others l := rfl
@[simp] theorem others_other : others (.other d :: l) = d :: others l := rfl
@[simp] theorem owned_nil : owned ([] : List (Datagram κ)) = [] := rfl
@[simp] theorem others_nil : others ([] : List (Datagram κ)) = [] := rfl

end datagram

/-- The entries on the way with their processes; `none` stands for another program. -/
structure Tags (κ : Type*) where
  pending : List (Option κ × Entry)
  waiting : List (Option κ × Entry)
  held    : List (Option κ × Entry)
  socket  : List (Datagram κ)

section tags
variable {κ : Type*} [DecidableEq κ]

/-- The entries of a source that are on the way, the first one in front. -/
def Tags.transit (g : Tags κ) (sending : κ → List Entry) (src : Option κ) : List Entry :=
  Relay.lane src (g.pending ++ g.waiting ++ g.held) ++
    src.elim [] fun p => Relay.lane p (owned g.socket) ++ sending p

/-- The relay with the tagged entries of `v`. -/
structure Rel (v : View κ) (g : Tags κ) (r : Relay.State (Option κ) Entry) : Prop where
  log       : r.log.map Prod.snd = v.handed
  pending   : g.pending.map Prod.snd = v.pending
  waiting   : g.waiting.map Prod.snd = v.waiting
  held      : g.held.map Prod.snd = v.held
  socket    : g.socket.map Datagram.bytes = v.socket
  transit   : ∀ src, r.transit src = g.transit v.sending src
  submitted : ∀ p, r.submitted (some p) = v.popped p
  foreign   : ∃ ds, (ds ++ others g.socket).Sublist v.injected ∧
    List.Forall₂ Read (r.submitted none) ds

theorem lane_tagged (p q : κ) (e : Entry) :
    Relay.lane (some p) [(some q, e)] = Relay.lane p [(q, e)] := by
  by_cases hq : q = p
  · subst hq
    simp
  · rw [Relay.lane_singleton_ne p hq, Relay.lane_singleton_ne (some p) (by simpa using hq)]

omit [DecidableEq κ] in
theorem eq_singleton_of_map {l : List (Option κ × Entry)} {e : Entry} (h : l.map Prod.snd = [e]) :
    ∃ src, l = [(src, e)] := by
  obtain ⟨x, rfl, hx⟩ := List.map_eq_singleton_iff.mp h
  exact ⟨x.1, by rw [← hx]⟩

theorem transit_update_self (g : Tags κ) (sending : κ → List Entry) (p : κ) (es : List Entry) :
    g.transit (Function.update sending p es) (some p) =
      Relay.lane (some p) (g.pending ++ g.waiting ++ g.held) ++
        (Relay.lane p (owned g.socket) ++ es) := by
  simp [Tags.transit]

theorem transit_update_ne (g : Tags κ) (sending : κ → List Entry) {p : κ} (es : List Entry)
    {src : Option κ} (hne : src ≠ some p) :
    g.transit (Function.update sending p es) src = g.transit sending src := by
  cases src with
  | none => rfl
  | some q =>
    have hq : q ≠ p := fun h => hne (congrArg some h)
    simp [Tags.transit, Function.update_of_ne hq]

/-- The entry that is written next is the first one of its source. -/
theorem transit_pending_self {g : Tags κ} {src : Option κ} {e : Entry} (hg : g.pending = [(src, e)])
    (sending : κ → List Entry) :
    g.transit sending src = e :: { g with pending := [] }.transit sending src := by
  simp only [Tags.transit, hg, List.nil_append, List.cons_append, Relay.lane_cons_self]

theorem transit_pending_ne {g : Tags κ} {src src' : Option κ} {e : Entry}
    (hg : g.pending = [(src, e)]) (hne : src' ≠ src) (sending : κ → List Entry) :
    g.transit sending src' = { g with pending := [] }.transit sending src' := by
  simp only [Tags.transit, hg, List.nil_append, List.cons_append,
    Relay.lane_cons_ne src' (Ne.symm hne)]

/-! ## Section 2: A move is a run of the relay -/

/-- A run of the relay from `r` leads to the entries of `v'`.  It loses nothing of the processes
    if `kept` is set and all their entries can be formatted. -/
def Answered (formats : Entry → Option (List UInt8) → Prop) (r : Relay.State (Option κ) Entry)
    (kept : Bool) (v' : View κ) : Prop :=
  ∃ g' acts r', Steps Relay.Step r acts r' ∧ Rel v' g' r' ∧
    (kept = true → (∀ p, ∀ e ∈ r.transit (some p), ¬ formats e none) →
      ∀ a ∈ acts, a.Spares fun src => src.isSome)

section answer
variable {formats : Entry → Option (List UInt8) → Prop} {v v' : View κ} {g : Tags κ}
  {r r' : Relay.State (Option κ) Entry}

/-- The same entries are on the way. -/
theorem Answered.idle (g' : Tags κ) (kept : Bool) (hR : Rel v' g' r) : Answered formats r kept v' :=
  ⟨g', [], r, .nil r, hR, nofun⟩

theorem Answered.step (g' : Tags κ) {a : Relay.Act (Option κ) Entry} {kept : Bool}
    (h : Relay.Step r a r') (hR : Rel v' g' r')
    (hspares : kept = true → (∀ p, ∀ e ∈ r.transit (some p), ¬ formats e none) →
      a.Spares fun src => src.isSome) : Answered formats r kept v' := by
  refine ⟨g', [a], r', .single h, hR, ?_⟩
  intro hkept hok b hb
  rw [List.mem_singleton.mp hb]
  exact hspares hkept hok

/-- An entry of `src` with the entries `front` of `src` before it is lost. -/
theorem step_lose {src : Option κ} {front back : List Entry} {e : Entry}
    (htransit : r.transit src = front ++ e :: back) :
    Relay.Step r (.lose src front.length)
      { r with transit := Function.update r.transit src (front ++ back) } := by
  have hlt : front.length < (r.transit src).length := by
    rw [htransit, List.length_append, List.length_cons]
    omega
  simp only [Relay.Step, Relay.next]
  rw [if_pos hlt, htransit, List.eraseIdx_append_of_length_le (Nat.le_refl _), Nat.sub_self]
  rfl

/-- The sending thread of `p` pops an entry: the process submits it. -/
theorem Rel.popped (hR : Rel v g r) {p : κ} {e : Entry} (hsend : v.sending p = []) :
    Answered formats r true
      { v with popped := Function.update v.popped p (v.popped p ++ [e])
               sending := Function.update v.sending p [e] } := by
  refine Answered.step g (a := .submit (some p) e) rfl
    ⟨hR.log, hR.pending, hR.waiting, hR.held, hR.socket, ?_, ?_, hR.foreign⟩ fun _ _ => trivial
  · intro src
    by_cases hsrc : src = some p
    · subst hsrc
      rw [transit_update_self]
      simp [hR.transit, Tags.transit, hsend]
    · rw [transit_update_ne _ _ _ hsrc]
      simp only [Function.update_of_ne hsrc]
      exact hR.transit src
  · intro q
    by_cases hq : q = p
    · subst hq
      simp only [Function.update_self, hR.submitted]
    · have hne : some q ≠ some p := fun h => hq (Option.some.inj h)
      simp only [Function.update_of_ne hq, Function.update_of_ne hne, hR.submitted]

theorem Rel.sent (hR : Rel v g r) {p : κ} {e : Entry} (hsend : v.sending p = [e]) :
    Answered formats r true
      { v with sending := Function.update v.sending p [], socket := v.socket ++ [List.ofFn e] } := by
  have hsocket : (g.socket ++ [Datagram.own p e]).map Datagram.bytes = v.socket ++ [List.ofFn e] := by
    rw [List.map_append, hR.socket]
    rfl
  have hforeign : others (g.socket ++ [.own p e]) = others g.socket := by simp
  refine Answered.idle { g with socket := g.socket ++ [.own p e] } true
    ⟨hR.log, hR.pending, hR.waiting, hR.held, hsocket, ?_, hR.submitted, ?_⟩
  · intro src
    rw [hR.transit]
    cases src with
    | none => rfl
    | some q =>
      by_cases hq : q = p
      · subst hq
        simp [Tags.transit, hsend]
      · simp [Tags.transit, Function.update_of_ne hq, Relay.lane_singleton_ne q (Ne.symm hq)]
  · rw [hforeign]
    exact hR.foreign

theorem Rel.notSent (hR : Rel v g r) {p : κ} {e : Entry} (hsend : v.sending p = [e]) :
    Answered formats r false { v with sending := Function.update v.sending p [] } := by
  have htransit : r.transit (some p) =
      (Relay.lane (some p) (g.pending ++ g.waiting ++ g.held) ++
        Relay.lane p (owned g.socket)) ++ e :: [] := by
    rw [hR.transit]
    simp [Tags.transit, hsend]
  refine Answered.step g (step_lose htransit)
    ⟨hR.log, hR.pending, hR.waiting, hR.held, hR.socket, ?_, hR.submitted, hR.foreign⟩
    fun hkept => absurd hkept Bool.false_ne_true
  intro src
  by_cases hsrc : src = some p
  · subst hsrc
    rw [transit_update_self]
    simp
  · rw [transit_update_ne _ _ _ hsrc]
    simp only [Function.update_of_ne hsrc]
    exact hR.transit src

theorem Rel.injected (hR : Rel v g r) (d : List UInt8) :
    Answered formats r true { v with socket := v.socket ++ [d], injected := v.injected ++ [d] } := by
  have hsocket : (g.socket ++ [Datagram.other d]).map Datagram.bytes = v.socket ++ [d] := by
    rw [List.map_append, hR.socket]
    rfl
  obtain ⟨ds, hsub, hread⟩ := hR.foreign
  refine Answered.idle { g with socket := g.socket ++ [.other d] } true
    ⟨hR.log, hR.pending, hR.waiting, hR.held, hsocket, ?_, hR.submitted, ds, ?_, hread⟩
  · intro src
    rw [hR.transit]
    simp [Tags.transit]
  · simp only [others_append, others_other, others_nil, ← List.append_assoc]
    exact hsub.append (List.Sublist.refl [d])

/-- The receive thread takes a datagram: it is the entry of a process, or one that another
    program submits. -/
theorem Rel.received (hR : Rel v g r) {d : List UInt8} {rest : List (List UInt8)} {e : Entry}
    (hsocket : v.socket = d :: rest) (hheld : v.held = []) (he : Read e d) :
    Answered formats r true { v with socket := rest, held := [e] } := by
  have hnone : g.held = [] := by
    have hmap := hR.held
    rw [hheld] at hmap
    exact List.map_eq_nil_iff.mp hmap
  obtain ⟨x, tagged, hg, hx, hrest⟩ := List.map_eq_cons_iff.mp (hR.socket.trans hsocket)
  obtain ⟨ds, hsub, hread⟩ := hR.foreign
  cases x with
  | other d' =>
    have hd : d' = d := hx
    subst hd
    refine Answered.step { g with held := [(none, e)], socket := tagged } (a := .submit none e) rfl
      ⟨hR.log, hR.pending, hR.waiting, rfl, hrest, ?_, ?_, ds ++ [d'], ?_, ?_⟩ fun _ _ => trivial
    · intro src
      cases src with
      | none => simp [hR.transit, Tags.transit, hnone]
      | some q =>
        simp [hR.transit, Tags.transit, hnone, hg, Relay.lane_singleton_ne (some q) (q := none)]
    · intro q
      simp [hR.submitted]
    · rw [hg] at hsub
      simpa using hsub
    · simp only [Function.update_self]
      exact List.rel_append hread (.cons he .nil)
  | own p e' =>
    have hd : List.ofFn e' = d := hx
    rw [← hd] at he
    obtain rfl : e = e' := he.eq
    rw [hg] at hsub
    refine Answered.idle { g with held := [(some p, e)], socket := tagged } true
      ⟨hR.log, hR.pending, hR.waiting, rfl, hrest, ?_, hR.submitted, ds, hsub, hread⟩
    intro src
    rw [hR.transit]
    cases src with
    | none =>
      simp [Tags.transit, hnone, Relay.lane_singleton_ne none]
    | some q =>
      have hlane : Relay.lane q ((p, e) :: owned tagged) =
          Relay.lane (some q) [(some p, e)] ++ Relay.lane q (owned tagged) := by
        rw [lane_tagged, ← Relay.lane_append, List.singleton_append]
      simp [Tags.transit, hnone, hg, hlane]

theorem Rel.ignored (hR : Rel v g r) {d : List UInt8} {rest : List (List UInt8)}
    (hsocket : v.socket = d :: rest) (hzero : d.length = 0) :
    Answered formats r true { v with socket := rest } := by
  obtain ⟨x, tagged, hg, hx, hrest⟩ := List.map_eq_cons_iff.mp (hR.socket.trans hsocket)
  obtain ⟨ds, hsub, hread⟩ := hR.foreign
  cases x with
  | own p e =>
    -- an entry is not empty
    have hlen : (List.ofFn e).length = 0 := (congrArg List.length hx).trans hzero
    rw [List.length_ofFn] at hlen
    exact absurd hlen (by decide)
  | other d' =>
    refine Answered.idle { g with socket := tagged } true
      ⟨hR.log, hR.pending, hR.waiting, hR.held, hrest, ?_, hR.submitted, ds, ?_, hread⟩
    · intro src
      rw [hR.transit]
      simp [Tags.transit, hg]
    · rw [hg] at hsub
      exact ((List.sublist_cons_self _ _).append_left ds).trans hsub

theorem Rel.accepted (hR : Rel v g r) {e : Entry} (hheld : v.held = [e]) :
    Answered formats r true { v with held := [], waiting := v.waiting ++ [e] } := by
  have hwaiting : (g.waiting ++ g.held).map Prod.snd = v.waiting ++ [e] := by
    rw [List.map_append, hR.waiting, hR.held, hheld]
  refine Answered.idle { g with held := [], waiting := g.waiting ++ g.held } true
    ⟨hR.log, hR.pending, hwaiting, rfl, hR.socket, ?_, hR.submitted, hR.foreign⟩
  intro src
  rw [hR.transit]
  simp [Tags.transit]

theorem Rel.refused (hR : Rel v g r) {e : Entry} (hheld : v.held = [e]) :
    Answered formats r false { v with held := [] } := by
  obtain ⟨src, hg⟩ := eq_singleton_of_map (hR.held.trans hheld)
  have htransit : r.transit src = Relay.lane src (g.pending ++ g.waiting) ++ e ::
      src.elim [] fun p => Relay.lane p (owned g.socket) ++ v.sending p := by
    rw [hR.transit]
    simp [Tags.transit, hg]
  refine Answered.step { g with held := [] } (step_lose htransit)
    ⟨hR.log, hR.pending, hR.waiting, rfl, hR.socket, ?_, hR.submitted, hR.foreign⟩
    fun hkept => absurd hkept Bool.false_ne_true
  intro src'
  by_cases hsrc : src' = src
  · subst hsrc
    simp [Tags.transit]
  · simp only [Function.update_of_ne hsrc]
    rw [hR.transit]
    simp [Tags.transit, hg, Relay.lane_singleton_ne src' (Ne.symm hsrc)]

theorem Rel.taken (hR : Rel v g r) {e : Entry} {rest : List Entry} (hwaiting : v.waiting = e :: rest)
    (hpending : v.pending = []) :
    Answered formats r true { v with waiting := rest, pending := [e] } := by
  have hnone : g.pending = [] := by
    have hmap := hR.pending
    rw [hpending] at hmap
    exact List.map_eq_nil_iff.mp hmap
  obtain ⟨x, tagged, hg, hx, hrest⟩ := List.map_eq_cons_iff.mp (hR.waiting.trans hwaiting)
  refine Answered.idle { g with pending := [x], waiting := tagged } true
    ⟨hR.log, by simp [hx], hrest, hR.held, hR.socket, ?_, hR.submitted, hR.foreign⟩
  intro src
  rw [hR.transit]
  simp only [Tags.transit, hnone, hg, List.nil_append, List.singleton_append]

/-- The first entry of its source is handed over: the relay writes it. -/
theorem Rel.handed (hR : Rel v g r) {e : Entry} {line : List UInt8} (hpending : v.pending = [e]) :
    Answered formats r true
      { v with pending := [], handed := v.handed ++ [e], lines := v.lines ++ [line] } := by
  obtain ⟨src, hg⟩ := eq_singleton_of_map (hR.pending.trans hpending)
  have htransit := (hR.transit src).trans (transit_pending_self hg v.sending)
  have hstep : Relay.Step r (.write src)
      { r with transit := Function.update r.transit src
                 ({ g with pending := [] }.transit v.sending src)
               log := r.log ++ [(src, e)] } := by
    simp only [Relay.Step, Relay.next, htransit]
  have hlog : (r.log ++ [(src, e)]).map Prod.snd = v.handed ++ [e] := by
    rw [List.map_append, hR.log]
    rfl
  refine Answered.step { g with pending := [] } hstep
    ⟨hlog, rfl, hR.waiting, hR.held, hR.socket, ?_, hR.submitted, hR.foreign⟩ fun _ _ => trivial
  intro src'
  by_cases hsrc : src' = src
  · subst hsrc
    simp only [Function.update_self]
  · simp only [Function.update_of_ne hsrc]
    exact (hR.transit src').trans (transit_pending_ne hg hsrc v.sending)

theorem Rel.skipped (hR : Rel v g r) {e : Entry} (hpending : v.pending = [e])
    (hbad : formats e none) : Answered formats r true { v with pending := [] } := by
  obtain ⟨src, hg⟩ := eq_singleton_of_map (hR.pending.trans hpending)
  have htransit : r.transit src = [] ++ e :: { g with pending := [] }.transit v.sending src :=
    (hR.transit src).trans (transit_pending_self hg v.sending)
  refine Answered.step { g with pending := [] } (step_lose htransit)
    ⟨hR.log, rfl, hR.waiting, hR.held, hR.socket, ?_, hR.submitted, hR.foreign⟩ ?_
  · intro src'
    by_cases hsrc : src' = src
    · subst hsrc
      simp only [Function.update_self, List.nil_append]
    · simp only [Function.update_of_ne hsrc]
      exact (hR.transit src').trans (transit_pending_ne hg hsrc v.sending)
  · intro _ hok hsome
    obtain ⟨p, rfl⟩ := Option.isSome_iff_exists.mp hsome
    exact hok p e (htransit ▸ List.mem_cons_self) hbad

/-- **Simulation.** The relay answers every move. -/
theorem Rel.answer {kept : Bool} (hR : Rel v g r) (h : Move formats v kept v') :
    Answered formats r kept v' := by
  cases h with
  | popped p e hsend => exact hR.popped hsend
  | sent p e hsend => exact hR.sent hsend
  | notSent p e hsend => exact hR.notSent hsend
  | injected d => exact hR.injected d
  | received d rest e hsocket hheld he => exact hR.received hsocket hheld he
  | ignored d rest hsocket hzero => exact hR.ignored hsocket hzero
  | accepted e hheld => exact hR.accepted hheld
  | refused e hheld => exact hR.refused hheld
  | taken e rest hwaiting hpending => exact hR.taken hwaiting hpending
  | handed e line hpending _ => exact hR.handed hpending
  | skipped e hpending hbad => exact hR.skipped hpending hbad

end answer

end tags

end SiLog.Pipeline
