import SiLog.Pipeline.Model

/-! # Where the entries are

    Seen from outside, the pipeline is a chain of queues.  This file says for
    every step of the system what it does to the chain: nothing, or one
    entry goes one place further, or it is gone.  An entry is gone when
    `SilogIpcClientSend` fails, when `logQueue` is full and when a line cannot
    be formatted.
-/

open Lts SiLog.Ipc SiLog.Daemon

namespace SiLog.Pipeline

/-! ## Section 1: The chain of queues -/

/-- The entry that was popped and not yet sent. -/
def SendPc.pending : SendPc → List Entry
  | .send e => [e]
  | _ => []

/-- The entries that each process popped so far and the one that it has not sent yet; the
    datagrams in the socket; the entries that were received and not pushed, pushed and
    not popped, popped and not handed to the file manager, and handed; their lines; and the
    datagrams of other programs. -/
structure View (κ : Type*) where
  popped   : κ → List Entry
  sending  : κ → List Entry
  socket   : List (List UInt8)
  held     : List Entry
  waiting  : List Entry
  pending  : List Entry
  handed   : List Entry
  lines    : List (List UInt8)
  injected : List (List UInt8)

/-- What the receive thread makes of a datagram: the entry begins with the bytes of the datagram, as
    many as fit, and the buffer keeps the others that it had. -/
def Read (e : Entry) (d : List UInt8) : Prop := d ≠ [] ∧ d.take logEntrySize <+: List.ofFn e

/-- One entry moves.  `formats` tells what a line may become, and that there may be none.  The
    flag is not set when an entry is gone that could have become a line. -/
inductive Move {κ : Type*} [DecidableEq κ] (formats : Entry → Option (List UInt8) → Prop)
    (v : View κ) : Bool → View κ → Prop where
  /-- The sending thread of `p` pops an entry. -/
  | popped (p : κ) (e : Entry) : v.sending p = [] →
      Move formats v true
        { v with popped := Function.update v.popped p (v.popped p ++ [e])
                 sending := Function.update v.sending p [e] }
  | sent (p : κ) (e : Entry) : v.sending p = [e] →
      Move formats v true
        { v with sending := Function.update v.sending p [], socket := v.socket ++ [List.ofFn e] }
  | notSent (p : κ) (e : Entry) : v.sending p = [e] →
      Move formats v false { v with sending := Function.update v.sending p [] }
  /-- A datagram of another program. -/
  | injected (d : List UInt8) :
      Move formats v true { v with socket := v.socket ++ [d], injected := v.injected ++ [d] }
  | received (d : List UInt8) (rest : List (List UInt8)) (e : Entry) :
      v.socket = d :: rest → v.held = [] → Read e d →
      Move formats v true { v with socket := rest, held := [e] }
  /-- An empty datagram. -/
  | ignored (d : List UInt8) (rest : List (List UInt8)) :
      v.socket = d :: rest → d.length = 0 → Move formats v true { v with socket := rest }
  | accepted (e : Entry) : v.held = [e] →
      Move formats v true { v with held := [], waiting := v.waiting ++ [e] }
  /-- `logQueue` is full. -/
  | refused (e : Entry) : v.held = [e] → Move formats v false { v with held := [] }
  | taken (e : Entry) (rest : List Entry) : v.waiting = e :: rest → v.pending = [] →
      Move formats v true { v with waiting := rest, pending := [e] }
  | handed (e : Entry) (line : List UInt8) : v.pending = [e] → formats e (some line) →
      Move formats v true
        { v with pending := [], handed := v.handed ++ [e], lines := v.lines ++ [line] }
  | skipped (e : Entry) : v.pending = [e] → formats e none →
      Move formats v true { v with pending := [] }

section view
variable {κ ι : Type*}

/-- The entries in `logQueue` that were pushed and not popped. -/
def queued (q : Shutdown.LogQueue) : List Entry := q.2.pushed.drop q.2.popped.length

def State.view (s : State κ ι) : View κ where
  popped := fun p => (s.apps p).queue.2.popped
  sending := fun p => (s.apps p).send.pending
  socket := s.socket
  held := s.held.toList
  waiting := queued s.daemon.queue
  pending := s.daemon.write.pending
  handed := s.daemon.handed
  lines := s.lines
  injected := s.injected

theorem view_setApp [DecidableEq κ] (s : State κ ι) (p : κ) (app : App ι) :
    (s.setApp p app).view =
      { s.view with popped := Function.update s.view.popped p app.queue.2.popped
                    sending := Function.update s.view.sending p app.send.pending } := by
  have happs : ∀ {β : Type} (f : App ι → β),
      (fun q => f (Function.update s.apps p app q)) =
        Function.update (fun q => f (s.apps q)) p (f app) :=
    fun f => (Function.comp_update f s.apps p app)
  simp only [State.view, State.setApp, happs fun a => a.queue.2.popped,
    happs fun a => a.send.pending]

end view

/-! ## Section 2: Steps of a queue -/

section queue
variable {ι : Type*} [DecidableEq ι] {n : ℕ} {c c' : Mpsc.Config ι n} {a : Mpsc.Act ι n}

/-- `Pop` returns an element in its last step and in no other. -/
theorem popped_step (h : Mpsc.Step c a c') :
    a ≠ .popStoreRead ∧ c'.2.popped = c.2.popped ∨
    ∃ read out, a = .popStoreRead ∧ c.1.pop = .advance read out ∧
      c'.2.popped = c.2.popped ++ [out] := by
  cases a with
  | fetchAdd p e =>
    obtain ⟨_, rfl⟩ := Mpsc.step_fetchAdd h
    exact Or.inl ⟨nofun, rfl⟩
  | loadRead p =>
    obtain ⟨_, _, _, ⟨_, rfl⟩ | ⟨_, rfl⟩⟩ := Mpsc.step_loadRead h
    · exact Or.inl ⟨nofun, rfl⟩
    · exact Or.inl ⟨nofun, rfl⟩
  | fetchSub p =>
    obtain ⟨_, _, rfl⟩ := Mpsc.step_fetchSub h
    exact Or.inl ⟨nofun, rfl⟩
  | cas p spurious =>
    obtain ⟨_, _, _, ⟨_, rfl⟩ | ⟨_, rfl⟩ | rfl⟩ := Mpsc.step_cas h
    · exact Or.inl ⟨nofun, rfl⟩
    · exact Or.inl ⟨nofun, rfl⟩
    · exact Or.inl ⟨nofun, rfl⟩
  | copyByte p b =>
    obtain ⟨_, _, _, _, rfl⟩ := Mpsc.step_copyByte h
    exact Or.inl ⟨nofun, rfl⟩
  | storeReady p =>
    obtain ⟨_, _, _, rfl⟩ := Mpsc.step_storeReady h
    exact Or.inl ⟨nofun, rfl⟩
  | popLoadRead out =>
    obtain ⟨_, rfl⟩ := Mpsc.step_popLoadRead h
    exact Or.inl ⟨nofun, rfl⟩
  | popLoadSeq =>
    obtain ⟨_, _, _, ⟨_, rfl⟩ | ⟨_, rfl⟩⟩ := Mpsc.step_popLoadSeq h
    · exact Or.inl ⟨nofun, rfl⟩
    · exact Or.inl ⟨nofun, rfl⟩
  | popCopyByte b =>
    obtain ⟨_, _, _, _, rfl⟩ := Mpsc.step_popCopyByte h
    exact Or.inl ⟨nofun, rfl⟩
  | popStoreSeq =>
    obtain ⟨_, _, _, rfl⟩ := Mpsc.step_popStoreSeq h
    exact Or.inl ⟨nofun, rfl⟩
  | popStoreRead =>
    obtain ⟨read, out, hpc, rfl⟩ := Mpsc.step_popStoreRead h
    exact Or.inr ⟨read, out, rfl, hpc, rfl⟩

/-- The steps of a `Pop`. -/
def inPop {ι : Type*} {n : ℕ} : Mpsc.Act ι n → Bool
  | .popLoadRead _ | .popLoadSeq | .popCopyByte _ | .popStoreSeq | .popStoreRead => true
  | _ => false

/-- A `Pop` leaves the calls of `Push` alone. -/
theorem push_of_inPop (hin : inPop a) (h : Mpsc.Step c a c') : c'.1.push = c.1.push := by
  cases a with
  | popLoadRead out =>
    obtain ⟨_, rfl⟩ := Mpsc.step_popLoadRead h
    rfl
  | popLoadSeq =>
    obtain ⟨_, _, _, ⟨_, rfl⟩ | ⟨_, rfl⟩⟩ := Mpsc.step_popLoadSeq h
    · rfl
    · rfl
  | popCopyByte b =>
    obtain ⟨_, _, _, _, rfl⟩ := Mpsc.step_popCopyByte h
    rfl
  | popStoreSeq =>
    obtain ⟨_, _, _, rfl⟩ := Mpsc.step_popStoreSeq h
    rfl
  | popStoreRead =>
    obtain ⟨_, _, _, rfl⟩ := Mpsc.step_popStoreRead h
    rfl
  | _ => cases hin

end queue

section sender
variable {ι : Type*} [DecidableEq ι] {c c' : Mpsc.Config ι logEntrySize}
  {a : Mpsc.Act ι logEntrySize}

/-- A step of `Pop` in the sending thread goes on, or returns an entry, which is sent next. -/
theorem sender_step {pc pc' : SendPc} (hafter : pc.after c c' a = some pc')
    (h : Mpsc.Step c a c') : pc.pending = [] ∧
      (pc'.pending = [] ∧ c'.2.popped = c.2.popped ∨
        ∃ e, pc' = .send e ∧ c'.2.popped = c.2.popped ++ [e]) := by
  obtain ⟨hne, hpopped⟩ | ⟨read, out, rfl, hpc, hpopped⟩ := popped_step h
  · cases pc with
    | body =>
      cases a with
      | popLoadRead out =>
        cases hafter
        exact ⟨rfl, Or.inl ⟨rfl, hpopped⟩⟩
      | _ => cases hafter
    | pop =>
      cases a with
      | popLoadSeq =>
        simp only [SendPc.after] at hafter
        split at hafter
        · cases hafter
          exact ⟨rfl, Or.inl ⟨rfl, hpopped⟩⟩
        · cases hafter
          exact ⟨rfl, Or.inl ⟨rfl, hpopped⟩⟩
      | popCopyByte b =>
        cases hafter
        exact ⟨rfl, Or.inl ⟨rfl, hpopped⟩⟩
      | popStoreSeq =>
        cases hafter
        exact ⟨rfl, Or.inl ⟨rfl, hpopped⟩⟩
      | popStoreRead => exact absurd rfl hne
      | _ => cases hafter
    | send e => cases a <;> cases hafter
  · cases pc with
    | pop =>
      simp only [SendPc.after, hpc] at hafter
      cases hafter
      exact ⟨rfl, Or.inr ⟨out, rfl, hpopped⟩⟩
    | body => cases hafter
    | send e => cases hafter

/-- A step of `Push` pops nothing. -/
theorem popped_of_inPush (hin : inPush a) (h : Mpsc.Step c a c') :
    c'.2.popped = c.2.popped := by
  obtain ⟨_, hpopped⟩ | ⟨_, _, rfl, _⟩ := popped_step h
  · exact hpopped
  · cases hin

end sender

/-! ## Section 3: Sending and receiving a datagram -/

theorem delivered_init (w : World) (env : InitEnv) :
    (silogIpcDgramClientInit w env).2.delivered = w.delivered := by
  unfold silogIpcDgramClientInit
  dsimp only
  split
  · rfl
  · split
    · rfl
    · split
      · rfl
      · split <;> rfl

theorem delivered_send (w : World) (fd : ℤ) (data : List UInt8) (ok : Bool) :
    (w.send fd data ok).1 ≠ .sent ∧ (w.send fd data ok).2.delivered = w.delivered ∨
    ∃ k, (w.send fd data ok).1 = .sent ∧
      (w.send fd data ok).2.delivered = w.delivered ++ [(k, data)] := by
  unfold World.send
  split
  · exact Or.inl ⟨nofun, rfl⟩
  next k _ =>
    split
    · exact Or.inl ⟨nofun, rfl⟩
    · split
      · exact Or.inr ⟨k, rfl, rfl⟩
      · exact Or.inl ⟨nofun, rfl⟩

/-- A call of `SilogIpcClientSend` delivers the datagram once if it returns `SILOG_OK`, and
    otherwise not at all. -/
theorem delivered_clientSend (w : World) (data : List UInt8) (env : SendEnv) :
    ((silogIpcClientSend w data env).1 ≠ .ok ∧
      (silogIpcClientSend w data env).2.delivered = w.delivered) ∨
    ∃ k, (silogIpcClientSend w data env).1 = .ok ∧
      (silogIpcClientSend w data env).2.delivered = w.delivered ++ [(k, data)] := by
  unfold silogIpcClientSend
  split
  · exact Or.inl ⟨nofun, rfl⟩
  unfold silogIpcDgramClientSend
  dsimp only
  split
  · exact Or.inl ⟨nofun, rfl⟩
  have hfirst := delivered_send w w.agent.sendFd data env.sendOk
  split
  next w₁ hsend =>
    rw [hsend] at hfirst
    obtain ⟨hne, _⟩ | ⟨k, _, hk⟩ := hfirst
    · exact absurd rfl hne
    · exact Or.inr ⟨k, rfl, hk⟩
  next w₁ hsend =>
    rw [hsend] at hfirst
    obtain ⟨_, hsame⟩ | ⟨_, hsent, _⟩ := hfirst
    · exact Or.inl ⟨nofun, hsame⟩
    · cases hsent
  next w₁ hsend =>
    rw [hsend] at hfirst
    obtain ⟨_, hsame⟩ | ⟨_, hsent, _⟩ := hfirst
    · -- the second attempt, on a new connection
      have hinit : (silogIpcDgramClientInit (silogIpcDgramClientClose w₁) env.init).2.delivered =
          w.delivered := (delivered_init _ _).trans hsame
      split
      next w₂ hok =>
        rw [hok] at hinit
        have hsecond := delivered_send { w₂ with daemons := w₂.daemons.events env.gap }
          w₂.agent.sendFd data env.resendOk
        split
        next w₃ hresend =>
          rw [hresend] at hsecond
          obtain ⟨hne, _⟩ | ⟨k, _, hk⟩ := hsecond
          · exact absurd rfl hne
          · refine Or.inr ⟨k, rfl, ?_⟩
            rw [← hinit]
            exact hk
        next r w₃ hnot hresend =>
          rw [hresend] at hsecond
          obtain ⟨_, hsame₂⟩ | ⟨_, hsent, _⟩ := hsecond
          · exact Or.inl ⟨nofun, hsame₂.trans hinit⟩
          · exact absurd hsent hnot
      next r w₂ _ hinitRet =>
        rw [hinitRet] at hinit
        exact Or.inl ⟨nofun, hinit⟩
    · cases hsent

theorem elemOfBytes_ofFn (e : Entry) : elemOfBytes (List.ofFn e) = e := by
  funext i
  unfold elemOfBytes
  rw [List.getD_eq_getElem _ _ (by rw [List.length_ofFn]; exact i.isLt), List.getElem_ofFn]

theorem ofFn_elemOfBytes {bs : List UInt8} (hlen : bs.length = logEntrySize) :
    List.ofFn (elemOfBytes bs) = bs := by
  refine List.ext_getElem (by rw [List.length_ofFn, hlen]) fun i hi hi' => ?_
  rw [List.getElem_ofFn]
  exact List.getD_eq_getElem _ _ hi'

/-- The entry is the datagram if that has the size of an entry. -/
theorem Read.eq {e e' : Entry} (h : Read e (List.ofFn e')) : e = e' := by
  have hfront := h.2
  rw [List.take_of_length_le (Nat.le_of_eq List.length_ofFn)] at hfront
  exact (List.ofFn_injective (hfront.eq_of_length (by rw [List.length_ofFn, List.length_ofFn]))).symm

/-- `SilogIpcServerInit` that returns `SILOG_OK` leaves a descriptor to receive from. -/
theorem serverInit_ok {agent : SilogIpcAgent} {env : ServerEnv} (hinit : agent.isInit)
    (hok : (silogIpcServerInit agent env).1 = .ok) :
    (silogIpcServerInit agent env).2.isInit ∧ 0 ≤ (silogIpcServerInit agent env).2.recvFd := by
  unfold silogIpcServerInit silogIpcDgramServerInit at hok ⊢
  simp only [hinit, Bool.true_eq_false, if_false] at hok ⊢
  split at hok
  · cases hok
  next fd _ =>
    split at hok
    next hne => exact absurd hok hne
    next hnonblock =>
      rw [if_neg hnonblock]
      split at hok
      · cases hok
      next hbind =>
        rw [if_neg hbind]
        exact ⟨rfl, Int.natCast_nonneg fd⟩

/-! ## Section 4: What a `Push` carries -/

/-- The element of a `Push` in progress that is not being given back. -/
def carried {n : ℕ} : Mpsc.PushPc n → Option (Mpsc.Elem n)
  | .ticketed e _ | .claim e _ | .copy e _ _ => some e
  | _ => none

section carried
variable {ι : Type*} [DecidableEq ι] {n : ℕ} {c c' : Mpsc.Config ι n} {a : Mpsc.Act ι n}

theorem carried_setPush {s : Mpsc.State ι n} {q : Mpsc.SiLogMpscQueue n} {p : ι}
    {pc : Mpsc.PushPc n} (hpc : ∀ e, carried pc = some e → carried (s.push p) = some e)
    (p' : ι) (e : Mpsc.Elem n) (h : carried ((s.setPush q p pc).push p') = some e) :
    carried (s.push p') = some e := by
  by_cases hp : p' = p
  · subst hp
    simp only [Mpsc.State.setPush, Function.update_self] at h
    exact hpc e h
  · simp only [Mpsc.State.setPush, Function.update_of_ne hp] at h
    exact h

/-- A `Push` carries the element that it was called with. -/
theorem carried_step (h : Mpsc.Step c a c') (p : ι) (e : Mpsc.Elem n)
    (he : carried (c'.1.push p) = some e) : carried (c.1.push p) = some e ∨ a = .fetchAdd p e := by
  cases a with
  | fetchAdd q x =>
    obtain ⟨_, rfl⟩ := Mpsc.step_fetchAdd h
    by_cases hp : p = q
    · subst hp
      simp only [Mpsc.State.setPush, Function.update_self, carried, Option.some.injEq] at he
      exact Or.inr (by rw [he])
    · simp only [Mpsc.State.setPush, Function.update_of_ne hp] at he
      exact Or.inl he
  | loadRead q =>
    obtain ⟨x, w, hpc, ⟨_, rfl⟩ | ⟨_, rfl⟩⟩ := Mpsc.step_loadRead h
    · exact Or.inl (carried_setPush (fun _ h => by rw [hpc]; exact h) p e he)
    · exact Or.inl (carried_setPush (by simp [carried]) p e he)
  | fetchSub q =>
    obtain ⟨_, _, rfl⟩ := Mpsc.step_fetchSub h
    exact Or.inl (carried_setPush (by simp [carried]) p e he)
  | cas q spurious =>
    obtain ⟨x, w, hpc, ⟨_, rfl⟩ | ⟨_, rfl⟩ | rfl⟩ := Mpsc.step_cas h
    · exact Or.inl (carried_setPush (fun _ h => by rw [hpc]; exact h) p e he)
    · exact Or.inl (carried_setPush (fun _ h => by rw [hpc]; exact h) p e he)
    · exact Or.inl (carried_setPush (fun _ h => by rw [hpc]; exact h) p e he)
  | copyByte q b =>
    obtain ⟨_, _, _, hpc, rfl⟩ := Mpsc.step_copyByte h
    exact Or.inl (carried_setPush (fun _ h => by rw [hpc]; exact h) p e he)
  | storeReady q =>
    obtain ⟨_, _, _, rfl⟩ := Mpsc.step_storeReady h
    exact Or.inl (carried_setPush (by simp [carried]) p e he)
  | _ =>
    have hpush : c'.1.push = c.1.push := push_of_inPop rfl h
    exact Or.inl (by rw [← hpush]; exact he)

end carried

/-- The last step of a `Push` in the receive thread adds what it carries; no other step of it
    adds anything. -/
theorem pushed_step {c c' : Shutdown.LogQueue} {a : Shutdown.QueueAct} (hin : inPush a)
    (h : Mpsc.Step c a c') : c'.2.popped = c.2.popped ∧
      (a ≠ .storeReady () ∧ c'.2.pushed = c.2.pushed ∨
        a = .storeReady () ∧ ∃ e, carried (c.1.push ()) = some e ∧
          c'.2.pushed = c.2.pushed ++ [e]) := by
  have hpopped := popped_of_inPush hin h
  cases a with
  | loadRead p =>
    obtain ⟨_, _, _, ⟨_, rfl⟩ | ⟨_, rfl⟩⟩ := Mpsc.step_loadRead h
    · exact ⟨hpopped, Or.inl ⟨nofun, rfl⟩⟩
    · exact ⟨hpopped, Or.inl ⟨nofun, rfl⟩⟩
  | fetchSub p =>
    obtain ⟨_, _, rfl⟩ := Mpsc.step_fetchSub h
    exact ⟨hpopped, Or.inl ⟨nofun, rfl⟩⟩
  | cas p spurious =>
    obtain ⟨_, _, _, ⟨_, rfl⟩ | ⟨_, rfl⟩ | rfl⟩ := Mpsc.step_cas h
    · exact ⟨hpopped, Or.inl ⟨nofun, rfl⟩⟩
    · exact ⟨hpopped, Or.inl ⟨nofun, rfl⟩⟩
    · exact ⟨hpopped, Or.inl ⟨nofun, rfl⟩⟩
  | copyByte p b =>
    obtain ⟨_, _, _, _, rfl⟩ := Mpsc.step_copyByte h
    exact ⟨hpopped, Or.inl ⟨nofun, rfl⟩⟩
  | storeReady p =>
    obtain ⟨e, w, hpc, rfl⟩ := Mpsc.step_storeReady h
    refine ⟨hpopped, Or.inr ⟨rfl, e, ?_, ?_⟩⟩
    · rw [show c.1.push () = .copy e w Finset.univ from hpc]
      rfl
    · simp [Mpsc.History.pushed, Mpsc.History.returnOk]
  | _ => cases hin

/-! ## Section 5: The invariant -/

/-- What the receive thread holds and what its `Push` carries. -/
def HeldOk (recv : Shutdown.RecvPc) (held : Option Entry) (pc : Mpsc.PushPc logEntrySize) : Prop :=
  match recv with
  | .body => True
  | .push => ∃ e, held = some e ∧ ∀ e', carried pc = some e' → e' = e
  | _ => held = none

section inv
variable {κ ι : Type*}

/-- The daemon is as in `SiLog.Daemon.Shutdown`, its socket is open in the loop of the receive
    thread, and nothing but the entry that was received is pushed. -/
structure Inv (s : State κ ι) : Prop where
  daemon : Shutdown.Inv s.daemon
  entry  : s.entry.length = logEntrySize
  agent  : s.daemon.recv ≠ .ipcInit → s.daemon.recv ≠ .done → s.agent.isInit ∧ 0 ≤ s.agent.recvFd
  held   : HeldOk s.daemon.recv s.held (s.daemon.queue.1.push ())

theorem inv_initial (b : Start κ) : Inv (State.initial b : State κ ι) where
  daemon := Shutdown.inv_initial (freshQueue_init b.daemonMem).2
  entry := b.entry.length_toList
  agent := fun h => absurd rfl h
  held := rfl

variable [DecidableEq κ]

theorem Inv.setApp {s : State κ ι} (hI : Inv s) (p : κ) (app : App ι) : Inv (s.setApp p app) :=
  ⟨hI.daemon, hI.entry, hI.agent, hI.held⟩

theorem view_setApp_sending {s : State κ ι} {p : κ} {app : App ι}
    (hpopped : app.queue.2.popped = (s.apps p).queue.2.popped) :
    (s.setApp p app).view =
      { s.view with sending := Function.update s.view.sending p app.send.pending } := by
  have hpop : Function.update s.view.popped p app.queue.2.popped = s.view.popped := by
    rw [hpopped]
    exact Function.update_eq_self p s.view.popped
  rw [view_setApp, hpop]

theorem view_setApp_same {s : State κ ι} {p : κ} {app : App ι}
    (hpopped : app.queue.2.popped = (s.apps p).queue.2.popped)
    (hsend : app.send.pending = (s.apps p).send.pending) : (s.setApp p app).view = s.view := by
  have hsending : Function.update s.view.sending p app.send.pending = s.view.sending := by
    rw [hsend]
    exact Function.update_eq_self p s.view.sending
  rw [view_setApp_sending hpopped, hsending]

/-- A step of the daemon's own leaves the receive thread alone, or is its loop test, and pops at
    most one entry. -/
theorem local_step {s s' : Shutdown.State} {a : Shutdown.Act} (hlocal : isLocal a)
    (h : Shutdown.Step s a s') :
    (s'.recv = s.recv ∨ s.recv = .test ∧ (s'.recv = .body ∨ s'.recv = .left)) ∧
    s'.queue.1.push = s.queue.1.push ∧ s'.queue.2.pushed = s.queue.2.pushed ∧
    s'.handed = s.handed ∧
    (s'.queue.2.popped = s.queue.2.popped ∧ s'.write.pending = s.write.pending ∨
      ∃ e, s.write.pending = [] ∧ s'.write.pending = [e] ∧
        s'.queue.2.popped = s.queue.2.popped ++ [e]) := by
  unfold Shutdown.Step Shutdown.step at h
  cases a with
  | storeRunning | callDeinit | joinRecv | release =>
    dsimp only at h
    split at h
    · cases h
      exact ⟨Or.inl rfl, rfl, rfl, rfl, Or.inl ⟨rfl, rfl⟩⟩
    · cases h
  | recvTest =>
    dsimp only at h
    split at h
    next htest =>
      cases h
      refine ⟨Or.inr ⟨htest, ?_⟩, rfl, rfl, rfl, Or.inl ⟨rfl, rfl⟩⟩
      cases s.running
      · exact Or.inr rfl
      · exact Or.inl rfl
    · cases h
  | joinWrite =>
    dsimp only at h
    split at h
    · cases h
      exact ⟨Or.inl rfl, rfl, rfl, rfl, Or.inl ⟨rfl, rfl⟩⟩
    · cases h
  | writeTest =>
    dsimp only at h
    split at h
    next hwrite =>
      cases h
      refine ⟨Or.inl rfl, rfl, rfl, rfl, Or.inl ⟨rfl, ?_⟩⟩
      rw [hwrite]
      cases s.running
      · rfl
      · rfl
    · cases h
  | pop b =>
    obtain ⟨q, hq, hafter⟩ := Option.bind_eq_some_iff.mp h
    obtain ⟨write, hwrite, rfl⟩ := Option.map_eq_some_iff.mp hafter
    have hstep := Mpsc.step_of_next _ _ _ hq
    obtain ⟨hpushed, _, hpend, heff⟩ := Shutdown.pop_effect hwrite hstep
    have hin : inPop b := by
      cases b with
      | popLoadRead | popLoadSeq | popCopyByte | popStoreSeq | popStoreRead => rfl
      | _ => cases hw : s.write <;> rw [hw] at hwrite <;> cases hwrite
    refine ⟨Or.inl rfl, push_of_inPop hin hstep, hpushed, rfl, ?_⟩
    obtain ⟨rfl, hpopped⟩ | ⟨rfl, _, hpopped⟩ | ⟨e, rfl, _, hpopped⟩ := heff
    · exact Or.inl ⟨hpopped, hpend.symm⟩
    · exact Or.inl ⟨hpopped, hpend.symm⟩
    · exact Or.inr ⟨e, hpend, rfl, hpopped⟩
  | _ => cases hlocal

/-- What waits in `logQueue` after a `Push`. -/
theorem queued_push {q q' : Shutdown.LogQueue} {e : Entry} (hI : Mpsc.SingleInv q)
    (hpopped : q'.2.popped = q.2.popped) (hpushed : q'.2.pushed = q.2.pushed ++ [e]) :
    queued q' = queued q ++ [e] := by
  unfold queued
  rw [hpopped, hpushed, List.drop_append_of_le_length hI.popped_isPrefix.length_le]

/-- What waits in `logQueue` before a `Pop`. -/
theorem queued_pop {q q' : Shutdown.LogQueue} {e : Entry} (hI : Mpsc.SingleInv q')
    (hpopped : q'.2.popped = q.2.popped ++ [e]) (hpushed : q'.2.pushed = q.2.pushed) :
    queued q = e :: queued q' := by
  obtain ⟨rest, hrest⟩ := hI.popped_isPrefix
  rw [hpushed, hpopped] at hrest
  unfold queued
  rw [hpushed, hpopped, ← hrest, List.append_assoc, List.drop_left, List.length_append,
    ← List.append_assoc, ← List.length_append, List.drop_left]
  rfl

end inv

/-! ## Section 6: Every step is a move -/

/-- What the write thread may make of an entry. -/
def Formats (lib : CLibrary) (e : Entry) (line : Option (List UInt8)) : Prop :=
  ∃ (timebuf : Vector UInt8 32) (logbuf : Vector UInt8 512),
    Line.silogDaemonWriteThreadFormat lib.localtimeR (Logger.entryOfElem e) timebuf.toList
      logbuf.toList = some line

section moves
variable {κ ι : Type*} [DecidableEq κ]

/-- The step loses no entry on its way: what is sent arrives at the socket of the daemon, and
    `logQueue` is not full. -/
def Lossless (s : State κ ι) : Act κ ι → Prop
  | .send p env => ∀ e, (s.apps p).send = .send e →
      arrivals s.mine (s.sent p e env).delivered ≠ []
  | .recvPush (.fetchSub _) => False
  | _ => True

/-- Nothing moves, or one entry does.  `P` rules out that it is lost. -/
def Moved (lib : CLibrary) (P : Prop) (v v' : View κ) : Prop :=
  v' = v ∨ ∃ kept, Move (Formats lib) v kept v' ∧ (P → kept = true)

variable {lib : CLibrary} {s s' : State κ ι}

theorem Moved.keeping {P : Prop} {v v' : View κ} (h : Move (Formats lib) v true v') :
    Moved lib P v v' :=
  Or.inr ⟨true, h, fun _ => rfl⟩

theorem Moved.losing {P : Prop} {v v' : View κ} (h : Move (Formats lib) v false v') (hP : ¬ P) :
    Moved lib P v v' :=
  Or.inr ⟨false, h, fun hp => absurd hp hP⟩

theorem arrivals_singleton (mine : Option ℕ) (k : ℕ) (d : List UInt8) :
    arrivals mine [(k, d)] = if mine = some k then [d] else [] := by
  by_cases hmine : mine = some k
  · simp [arrivals, hmine]
  · simp [arrivals, hmine]

/-- `SilogIpcClientSend` puts the entry into the socket of the daemon, or it is gone. -/
theorem moved_send {p : κ} {e : Entry} {env : SendEnv} (hsend : (s.apps p).send = .send e) :
    Moved lib (Lossless s (.send p env)) s.view (s.sendEntry p e env).view := by
  have hpending : s.view.sending p = [e] := congrArg SendPc.pending hsend
  have hview : (s.sendEntry p e env).view =
      { s.view with sending := Function.update s.view.sending p []
                    socket := s.socket ++ arrivals s.mine (s.sent p e env).delivered } := by
    let app : App ι := { s.apps p with agent := (s.sent p e env).agent
                                       peer := (s.sent p e env).peer, send := .body }
    have happ : (s.setApp p app).view =
        { s.view with sending := Function.update s.view.sending p [] } := view_setApp_sending rfl
    calc (s.sendEntry p e env).view
        = { (s.setApp p app).view with
            socket := s.socket ++ arrivals s.mine (s.sent p e env).delivered } := rfl
      _ = _ := by rw [happ]
  rw [hview]
  let w : World := { agent := (s.apps p).agent, peer := (s.apps p).peer, daemons := s.daemons
                     delivered := [] }
  have hlost : arrivals s.mine (s.sent p e env).delivered = [] →
      Moved lib (Lossless s (.send p env)) s.view
        { s.view with sending := Function.update s.view.sending p []
                      socket := s.socket ++ arrivals s.mine (s.sent p e env).delivered } := by
    intro hnone
    rw [hnone, List.append_nil]
    exact Moved.losing (.notSent p e hpending) fun h => h e hsend hnone
  obtain ⟨_, hdel⟩ | ⟨k, _, hdel⟩ := delivered_clientSend w (List.ofFn e) env
  · apply hlost
    rw [show (s.sent p e env).delivered = [] from hdel]
    rfl
  · have hone : (s.sent p e env).delivered = [(k, List.ofFn e)] := hdel
    by_cases hmine : s.mine = some k
    · rw [hone, arrivals_singleton, if_pos hmine]
      exact Moved.keeping (.sent p e hpending)
    · apply hlost
      rw [hone, arrivals_singleton, if_neg hmine]

variable [DecidableEq ι]

/-- A step of a logging process other than sending. -/
theorem moved_app {p : κ} {q : Mpsc.Config ι logEntrySize} {a : Mpsc.Act ι logEntrySize}
    {send : SendPc} (hq : Mpsc.Step (s.apps p).queue a q)
    (hsend : send = (s.apps p).send ∧ a ≠ .popStoreRead ∨
      (s.apps p).send.after (s.apps p).queue q a = some send) (P : Prop) :
    Moved lib P s.view (s.setApp p { s.apps p with queue := q, send := send }).view := by
  obtain ⟨rfl, hne⟩ | hafter := hsend
  · obtain ⟨_, hpopped⟩ | ⟨_, _, rfl, _⟩ := popped_step hq
    · exact Or.inl (view_setApp_same hpopped rfl)
    · exact absurd rfl hne
  · obtain ⟨hnone, ⟨hnone', hpopped⟩ | ⟨e, rfl, hpopped⟩⟩ := sender_step hafter hq
    · exact Or.inl (view_setApp_same hpopped (hnone'.trans hnone.symm))
    · have hview := view_setApp s p { s.apps p with queue := q, send := SendPc.send e }
      rw [hpopped] at hview
      rw [hview]
      exact Moved.keeping (.popped p e hnone)

omit [DecidableEq κ] [DecidableEq ι] in
/-- `SilogIpcServerRecv` in the loop of the receive thread: it takes a datagram, which is empty or
    overwrites the front of the buffer, or nothing. -/
theorem recvDatagram_spec (hI : Inv s) (hbody : s.daemon.recv = .body) (ok : Bool) :
    ((s.recvDatagram ok).2 ≤ 0 ∧ (s.recvDatagram ok).1 = s) ∨
    ∃ d rest, s.socket = d :: rest ∧
      (s.recvDatagram ok).1 = { s with entry := (s.recvDatagram ok).1.entry, socket := rest } ∧
      (s.recvDatagram ok).1.entry.length = logEntrySize ∧
      ((s.recvDatagram ok).2 ≤ 0 ∧ d.length = 0 ∨
        0 < (s.recvDatagram ok).2 ∧ d ≠ [] ∧
          (s.recvDatagram ok).1.entry = d.take logEntrySize ++
            s.entry.drop (d.take logEntrySize).length) := by
  obtain ⟨hinit, hfd⟩ := hI.agent (by rw [hbody]; exact nofun) (by rw [hbody]; exact nofun)
  have hlen := hI.entry
  obtain ⟨apps, daemons, agent, mine, socket, entry, held, daemon, lines⟩ := s
  dsimp only at hinit hfd hlen hbody
  have hnothing : silogIpcServerRecv agent entry .failed = (-1, entry) := by
    simp [silogIpcServerRecv, hinit, silogIpcDgramServerRecv, Int.not_lt.mpr hfd]
  cases socket with
  | nil =>
    apply Or.inl
    simp only [State.recvDatagram, recvResult, hnothing, Receive.received]
    exact ⟨by decide, rfl⟩
  | cons d rest =>
    cases ok with
    | false =>
      apply Or.inl
      simp only [State.recvDatagram, recvResult, Bool.false_eq_true, if_false, hnothing,
        Receive.received]
      exact ⟨by decide, rfl⟩
    | true =>
      apply Or.inr
      have hrecv : Receive.received agent (.datagram d) = some d := if_pos ⟨hinit, hfd⟩
      simp only [State.recvDatagram, recvResult, if_true, hrecv, Option.isSome_some, List.tail_cons,
        Receive.serverRecv_datagram hinit hfd, hlen]
      refine ⟨d, rest, rfl, rfl, ?_, ?_⟩
      · rw [List.length_append, List.length_drop, List.length_take, hlen]
        omega
      · by_cases hzero : d.length = 0
        · apply Or.inl
          rw [List.length_take, hzero]
          exact ⟨by decide, rfl⟩
        · apply Or.inr
          refine ⟨?_, List.ne_nil_of_length_pos (Nat.pos_of_ne_zero hzero), rfl⟩
          rw [List.length_take]
          exact Int.natCast_pos.mpr (Nat.lt_min.mpr ⟨by decide, Nat.pos_of_ne_zero hzero⟩)

/-- The receive thread takes the next datagram. -/
theorem moved_recv (hI : Inv s) {ok : Bool} (h : step lib s (.recv ok) = some s') (P : Prop) :
    Inv s' ∧ Moved lib P s.view s'.view := by
  simp only [step] at h
  split at h
  next hpc =>
    obtain ⟨hbody, hheld⟩ := hpc
    have hnone : s.held = none := Option.isNone_iff_eq_none.mp hheld
    have hagent := hI.agent (by simp [hbody]) (by simp [hbody])
    have hstate : ∀ daemon, Shutdown.step s.daemon .recvNothing = some daemon →
        daemon = { s.daemon with recv := .test } := by
      intro daemon hdaemon
      simp only [Shutdown.step, if_pos hbody, Option.some.injEq] at hdaemon
      exact hdaemon.symm
    obtain ⟨hle, hsame⟩ | ⟨d, rest, hsocket, hafter, hlen, hcase⟩ := recvDatagram_spec hI hbody ok
    · -- nothing is there
      rw [if_neg (by omega)] at h
      obtain ⟨daemon, hdaemon, rfl⟩ := Option.map_eq_some_iff.mp h
      rw [hsame]
      have hI' : Shutdown.Inv daemon := hI.daemon.step (a := .recvNothing) hdaemon
      rw [hstate daemon hdaemon] at hI' ⊢
      exact ⟨⟨hI', hI.entry, fun _ _ => hagent, hnone⟩, Or.inl rfl⟩
    · obtain ⟨hle, hzero⟩ | ⟨hpos, hne, hentry⟩ := hcase
      · rw [if_neg (by omega)] at h
        obtain ⟨daemon, hdaemon, rfl⟩ := Option.map_eq_some_iff.mp h
        have hI' : Shutdown.Inv daemon := hI.daemon.step (a := .recvNothing) hdaemon
        rw [hafter]
        rw [hstate daemon hdaemon] at hI' ⊢
        exact ⟨⟨hI', hlen, fun _ _ => hagent, hnone⟩,
          Moved.keeping (.ignored d rest hsocket hzero)⟩
      · rw [if_pos hpos] at h
        cases h
        have hread : Read (elemOfBytes (s.recvDatagram ok).1.entry) d := by
          refine ⟨hne, ?_⟩
          rw [ofFn_elemOfBytes hlen, hentry]
          exact List.prefix_append _ _
        have hview : Moved lib P s.view
            { s.view with socket := rest, held := [elemOfBytes (s.recvDatagram ok).1.entry] } :=
          Moved.keeping (.received d rest _ hsocket (by rw [State.view, hnone]; rfl) hread)
        rw [hafter]
        refine ⟨⟨hI.daemon, hlen, hI.agent, ?_⟩, hview⟩
        show HeldOk s.daemon.recv _ _
        rw [hbody]
        trivial
  · cases h

/-- The receive thread starts to push the entry that it received. -/
theorem moved_recvPushStart (hI : Inv s) (h : step lib s .recvPushStart = some s') (P : Prop) :
    Inv s' ∧ Moved lib P s.view s'.view := by
  obtain ⟨e, hheld, hpush⟩ := Option.bind_eq_some_iff.mp h
  obtain ⟨daemon, hdaemon, rfl⟩ := Option.map_eq_some_iff.mp hpush
  have hI' : Shutdown.Inv daemon := hI.daemon.step (a := .push (.fetchAdd () e)) hdaemon
  obtain ⟨recv, hafter, hnext⟩ := Option.bind_eq_some_iff.mp hdaemon
  obtain ⟨q, hq, rfl⟩ := Option.map_eq_some_iff.mp hnext
  obtain ⟨_, rfl⟩ := Mpsc.step_fetchAdd (Mpsc.step_of_next _ _ _ hq)
  cases hbody : s.daemon.recv with
  | body =>
    rw [hbody] at hafter
    cases hafter
    refine ⟨⟨hI', hI.entry, fun _ _ => hI.agent (by rw [hbody]; exact nofun)
      (by rw [hbody]; exact nofun), e, hheld, ?_⟩, Or.inl rfl⟩
    intro e' he'
    simp only [Mpsc.State.setPush, Function.update_self, carried, Option.some.injEq] at he'
    exact he'.symm
  | _ =>
    rw [hbody] at hafter
    cases hafter

/-- The receive thread goes on with its `Push`. -/
theorem moved_recvPush (hI : Inv s) {a : Shutdown.QueueAct}
    (h : step lib s (.recvPush a) = some s') :
    Inv s' ∧ Moved lib (Lossless s (.recvPush a)) s.view s'.view := by
  simp only [step] at h
  split at h
  next hin =>
    obtain ⟨daemon, hdaemon, rfl⟩ := Option.map_eq_some_iff.mp h
    have hI' : Shutdown.Inv daemon := hI.daemon.step (a := .push a) hdaemon
    obtain ⟨recv, hafter, hnext⟩ := Option.bind_eq_some_iff.mp hdaemon
    obtain ⟨q, hq, rfl⟩ := Option.map_eq_some_iff.mp hnext
    have hstep : Mpsc.Step s.daemon.queue a q := Mpsc.step_of_next _ _ _ hq
    obtain ⟨hpopped, hpushed⟩ := pushed_step hin hstep
    cases hpc : s.daemon.recv with
    | push =>
      have hheld := hI.held
      rw [hpc] at hheld hafter
      obtain ⟨e, he, hcarried⟩ := hheld
      have hagent := hI.agent (by rw [hpc]; exact nofun) (by rw [hpc]; exact nofun)
      have hview : s.view.held = [e] := by rw [State.view, he]; rfl
      -- the thread carries on with the same entry
      have hcarried' : ∀ e', carried (q.1.push ()) = some e' → e' = e := by
        intro e' he'
        obtain hold | rfl := carried_step hstep () e' he'
        · exact hcarried e' hold
        · cases hin
      have hon : ∀ b, endsPush b = false → a = b → recv = .push →
          Inv { s with daemon := { s.daemon with recv := recv, queue := q }
                       held := if endsPush a then none else s.held } ∧
          Moved lib (Lossless s (.recvPush a)) s.view
            (State.view { s with daemon := { s.daemon with recv := recv, queue := q }
                                 held := if endsPush a then none else s.held }) := by
        intro b hb hab hrecv
        subst hab
        subst hrecv
        rw [hb]
        refine ⟨⟨hI', hI.entry, fun _ _ => hagent, e, he, hcarried'⟩, Or.inl ?_⟩
        obtain ⟨_, hsame⟩ | ⟨rfl, _⟩ := hpushed
        · simp [State.view, queued, hpopped, hsame]
        · cases hb
      cases a with
      | loadRead p =>
        cases hafter
        exact hon _ rfl rfl rfl
      | cas p spurious =>
        cases hafter
        exact hon _ rfl rfl rfl
      | copyByte p b =>
        cases hafter
        exact hon _ rfl rfl rfl
      | fetchSub p =>
        cases hafter
        refine ⟨⟨hI', hI.entry, fun _ _ => hagent, rfl⟩, ?_⟩
        obtain ⟨_, hsame⟩ | ⟨hready, _⟩ := hpushed
        · have hlost : Move (Formats lib) s.view false { s.view with held := [] } :=
            Move.refused e hview
          have hafterView : State.view { s with
              daemon := { s.daemon with recv := .test, queue := q }, held := none } =
              { s.view with held := [] } := by
            simp [State.view, queued, hpopped, hsame]
          simp only [endsPush, if_true]
          rw [hafterView]
          exact Moved.losing hlost id
        · cases hready
      | storeReady p =>
        cases hafter
        refine ⟨⟨hI', hI.entry, fun _ _ => hagent, rfl⟩, ?_⟩
        obtain ⟨hne, _⟩ | ⟨_, e', he', hnew⟩ := hpushed
        · exact absurd rfl hne
        · have hee : e' = e := hcarried e' he'
          subst hee
          have hafterView : State.view { s with
              daemon := { s.daemon with recv := .test, queue := q }, held := none } =
              { s.view with held := [], waiting := s.view.waiting ++ [e'] } := by
            simp [State.view, queued_push hI.daemon.single hpopped hnew]
          simp only [endsPush, if_true]
          rw [hafterView]
          exact Moved.keeping (.accepted e' hview)
      | _ => cases hin
    | body =>
      rw [hpc] at hafter
      cases a with
      | fetchAdd p e => cases hin
      | _ => cases hafter
    | _ =>
      rw [hpc] at hafter
      cases hafter
  · cases h

/-- The other steps of the daemon. -/
theorem moved_other (hI : Inv s) {a : Shutdown.Act} (h : step lib s (.other a) = some s')
    (P : Prop) : Inv s' ∧ Moved lib P s.view s'.view := by
  simp only [step] at h
  split at h
  next hlocal =>
    obtain ⟨daemon, hdaemon, rfl⟩ := Option.map_eq_some_iff.mp h
    have hI' : Shutdown.Inv daemon := hI.daemon.step hdaemon
    obtain ⟨hrecv, hpush, hpushed, hhanded, hpop⟩ := local_step hlocal hdaemon
    refine ⟨⟨hI', hI.entry, ?_, ?_⟩, ?_⟩
    · obtain hsame | ⟨htest, _⟩ := hrecv
      · show daemon.recv ≠ _ → daemon.recv ≠ _ → _
        rw [hsame]
        exact hI.agent
      · intro _ _
        exact hI.agent (by rw [htest]; exact nofun) (by rw [htest]; exact nofun)
    · have hheld := hI.held
      show HeldOk daemon.recv s.held (daemon.queue.1.push ())
      rw [hpush]
      obtain hsame | ⟨htest, hnext⟩ := hrecv
      · rw [hsame]
        exact hheld
      · rw [htest] at hheld
        obtain hbody | hleft := hnext
        · rw [hbody]
          trivial
        · rw [hleft]
          exact hheld
    · obtain ⟨hpopped, hpending⟩ | ⟨e, hnone, hone, hpopped⟩ := hpop
      · exact Or.inl (by simp [State.view, queued, hpopped, hpushed, hpending, hhanded])
      · have htaken : Move (Formats lib) s.view true
            { s.view with waiting := queued daemon.queue, pending := [e] } :=
          Move.taken e _ (queued_pop hI'.single hpopped hpushed) hnone
        have hview : State.view { s with daemon := daemon } =
            { s.view with waiting := queued daemon.queue, pending := [e] } := by
          simp [State.view, hone, hhanded]
        rw [hview]
        exact Moved.keeping htaken
  · cases h

/-- The write thread hands its entry over, or skips it. -/
theorem moved_write (hI : Inv s) {timebuf : Vector UInt8 32} {logbuf : Vector UInt8 512}
    (h : step lib s (.write timebuf logbuf) = some s') (P : Prop) :
    Inv s' ∧ Moved lib P s.view s'.view := by
  simp only [step] at h
  split at h
  next e hwrite =>
    obtain ⟨line, hline, hformat⟩ := Option.bind_eq_some_iff.mp h
    obtain ⟨daemon, hdaemon, rfl⟩ := Option.map_eq_some_iff.mp hformat
    have hI' : Shutdown.Inv daemon := hI.daemon.step (a := .format line.isSome) hdaemon
    simp only [Shutdown.step, hwrite, Option.some.injEq] at hdaemon
    subst hdaemon
    have hpending : s.view.pending = [e] := congrArg Shutdown.WritePc.pending hwrite
    refine ⟨⟨hI', hI.entry, hI.agent, hI.held⟩, ?_⟩
    cases line with
    | none =>
      have hskipped : Move (Formats lib) s.view true { s.view with pending := [] } :=
        Move.skipped e hpending ⟨timebuf, logbuf, hline⟩
      simp only [Option.isSome_none, Bool.false_eq_true, if_false, Option.toList_none,
        List.append_nil]
      exact Moved.keeping hskipped
    | some line =>
      have hhanded : Move (Formats lib) s.view true
          { s.view with pending := [], handed := s.view.handed ++ [e],
                        lines := s.view.lines ++ [line] } :=
        Move.handed e line hpending ⟨timebuf, logbuf, hline⟩
      simp only [Option.isSome_some, if_true, Option.toList_some]
      exact Moved.keeping hhanded
  · cases h

/-- The receive thread opens its socket. -/
theorem inv_recvStart (hI : Inv s) {env : ServerEnv} (h : step lib s (.recvStart env) = some s') :
    Inv s' ∧ s'.view = s.view := by
  obtain ⟨daemon, hdaemon, rfl⟩ := Option.map_eq_some_iff.mp h
  have hI' : Shutdown.Inv daemon := hI.daemon.step (a := .recvStart _) hdaemon
  simp only [Shutdown.step] at hdaemon
  split at hdaemon
  next hpc =>
    have hheld := hI.held
    rw [hpc] at hheld
    cases hdaemon
    refine ⟨⟨hI', hI.entry, ?_, ?_⟩, rfl⟩
    · intro _ hdone
      simp only [decide_eq_true_eq, ne_eq, ite_eq_right_iff, reduceCtorEq, imp_false,
        Decidable.not_not] at hdone
      -- the agent is initialised, and the descriptor is the one of the socket
      have hinit : (silogIpcInit s.agent .unixDgram).isInit := by
        unfold silogIpcInit
        split
        · assumption
        · rfl
      exact serverInit_ok hinit hdone
    · dsimp only
      split
      · exact hheld
      · exact hheld
  · cases hdaemon

/-- The receive thread closes its socket. -/
theorem inv_recvClose (hI : Inv s) (h : step lib s .recvClose = some s') :
    Inv s' ∧ s'.view = s.view := by
  obtain ⟨daemon, hdaemon, rfl⟩ := Option.map_eq_some_iff.mp h
  have hI' : Shutdown.Inv daemon := hI.daemon.step (a := .recvClose) hdaemon
  simp only [Shutdown.step] at hdaemon
  split at hdaemon
  next hpc =>
    have hheld := hI.held
    rw [hpc] at hheld
    cases hdaemon
    exact ⟨⟨hI', hI.entry, fun _ hdone => absurd rfl hdone, hheld⟩, rfl⟩
  · cases hdaemon

/-- **Steps.** Every step of the system keeps the invariant, and moves nothing or one entry by one
    place.  A step that loses nothing keeps it. -/
theorem step_moved (hI : Inv s) {a : Act κ ι} (h : Step lib s a s') :
    Inv s' ∧ Moved lib (Lossless s a) s.view s'.view := by
  unfold Step at h
  cases a with
  | silogLog p t m =>
    obtain ⟨e, _, hpush⟩ := Option.bind_eq_some_iff.mp h
    obtain ⟨q, hq, rfl⟩ := Option.map_eq_some_iff.mp hpush
    exact ⟨hI.setApp p _, moved_app (Mpsc.step_of_next _ _ _ hq) (Or.inl ⟨rfl, nofun⟩) _⟩
  | push p a =>
    simp only [step] at h
    split at h
    next hin =>
      obtain ⟨q, hq, rfl⟩ := Option.map_eq_some_iff.mp h
      refine ⟨hI.setApp p _, moved_app (Mpsc.step_of_next _ _ _ hq) (Or.inl ⟨rfl, ?_⟩) _⟩
      intro ha
      subst ha
      cases hin
    · cases h
  | setLevel p level =>
    cases h
    exact ⟨hI.setApp p _, Or.inl (view_setApp_same rfl rfl)⟩
  | pop p a =>
    obtain ⟨q, hq, hafter⟩ := Option.bind_eq_some_iff.mp h
    obtain ⟨send, hsend, rfl⟩ := Option.map_eq_some_iff.mp hafter
    exact ⟨hI.setApp p _, moved_app (Mpsc.step_of_next _ _ _ hq) (Or.inr hsend) _⟩
  | send p env =>
    simp only [step] at h
    split at h
    next e hsend =>
      cases h
      exact ⟨⟨hI.daemon, hI.entry, hI.agent, hI.held⟩, moved_send hsend⟩
    · cases h
  | inject d =>
    cases h
    exact ⟨⟨hI.daemon, hI.entry, hI.agent, hI.held⟩, Moved.keeping (.injected d)⟩
  | socketEvent e =>
    cases h
    exact ⟨⟨hI.daemon, hI.entry, hI.agent, hI.held⟩, Or.inl rfl⟩
  | recvStart env => exact (inv_recvStart hI h).imp id Or.inl
  | recv ok => exact moved_recv hI h _
  | recvPushStart => exact moved_recvPushStart hI h _
  | recvPush a => exact moved_recvPush hI h
  | recvClose => exact (inv_recvClose hI h).imp id Or.inl
  | other a => exact moved_other hI h _
  | write timebuf logbuf => exact moved_write hI h _

end moves

end SiLog.Pipeline
