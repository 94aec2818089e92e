import SiLog.Daemon.Calls

/-! # `SilogDaemonDeinit` gets through its joins

    `SilogDaemonDeinit` waits for the receive thread, the write thread and the remote
    service thread, after it has cleared the flag that the thread tests.  The
    thread may be anywhere in its loop by then, inside a `Broadcast` to many
    clients or an `Accept`.  This file gives a bound on the steps that it still
    takes, whatever the system calls return and whatever the other threads do
    in between, and shows that it is never stuck before it ends.
-/

open Lts

namespace SiLog.Daemon.Service

/-! ## Section 1: Steps left in a call -/

/-- A bound on the steps that a call of the service at `pc` still takes, with a table of
    `slots` clients: for each slot that is left, a `send` for each byte, and a few
    steps around them. -/
def callLeft (slots : ℕ) : Remote.Pc → ℕ
  | .idle => 0
  | .broadcast _ => slots * (Remote.entrySize + 3) + 1
  | .sending i _ rest buf => (slots - (i + 1)) * (buf.length + 3) + rest.length + 2
  | .sent i _ _ buf => (slots - (i + 1)) * (buf.length + 3) + 1
  | .accepting => 3
  | .accepted _ => 2
  | .rejecting _ => 1

section calls
variable {r r' : Remote.System Caller} {t : Caller}

theorem callLeft_broadcastFrom (m : Remote.SilogRemoteManager) (buf : List UInt8) (k : ℕ) :
    callLeft m.maxClients.toNat (Remote.broadcastFrom m buf k) ≤
      (m.maxClients.toNat - k) * (buf.length + 3) := by
  rcases Remote.broadcastFrom_cases m buf k with h | ⟨i, hlo, hhi, _, h⟩
  · rw [h]
    exact Nat.zero_le _
  · rw [h]
    have hslot : m.maxClients.toNat - i = (m.maxClients.toNat - (i + 1)) + 1 := by omega
    calc (m.maxClients.toNat - (i + 1)) * (buf.length + 3) + buf.length + 2
        ≤ (m.maxClients.toNat - (i + 1)) * (buf.length + 3) + (buf.length + 3) := by omega
      _ = (m.maxClients.toNat - i) * (buf.length + 3) := by rw [hslot, Nat.succ_mul]
      _ ≤ (m.maxClients.toNat - k) * (buf.length + 3) := Nat.mul_le_mul_right _ (by omega)

theorem callLeft_broadcastLocked (m : Remote.SilogRemoteManager) (e : LogEntry) :
    callLeft m.maxClients.toNat (Remote.broadcastLocked m e) ≤
      m.maxClients.toNat * (Remote.entrySize + 3) := by
  unfold Remote.broadcastLocked
  split
  · exact Nat.zero_le _
  · rw [Remote.serialize_entry]
    dsimp only
    split
    · exact Nat.zero_le _
    · have hlen : ((Remote.entryBytes e).take Remote.entrySize).length = Remote.entrySize := by
        rw [List.length_take, Remote.length_entryBytes]
        exact Nat.min_self _
      have hle := callLeft_broadcastFrom m ((Remote.entryBytes e).take Remote.entrySize) 0
      rw [hlen] at hle
      exact hle

theorem step_maxClients {a : Remote.Act Caller} (h : Remote.ThreadStep r a r') :
    r'.server.mgr.maxClients = r.server.mgr.maxClients := by
  cases a with
  | broadcast t entry => obtain ⟨_, pc, rfl, _⟩ := Remote.step_broadcast h; rfl
  | broadcastLock t => obtain ⟨_, _, rfl⟩ := Remote.step_broadcastLock h; rfl
  | send t x => obtain ⟨_, _, _, _, _, _, _, rfl, _⟩ := Remote.step_send h; rfl
  | relock t =>
    obtain ⟨i, ret, _, _, _, rfl⟩ := Remote.step_relock h
    rcases Remote.afterSend_cases r.server i ret with hsame | ⟨_, _, hclose⟩
    · rw [hsame]
      rfl
    · rw [hclose]
      exact Remote.close_maxClients _ _
  | accept t => obtain ⟨_, pc, rfl, _⟩ := Remote.step_accept h; rfl
  | acceptCall t x => obtain ⟨_, rfl | ⟨fd, _, _, _, rfl⟩⟩ := Remote.step_acceptCall h <;> rfl
  | acceptLock t getFl setFl =>
    obtain ⟨fd, _, ⟨_, rfl⟩ | ⟨server, hplace, rfl⟩⟩ := Remote.step_acceptLock h
    · rfl
    · obtain ⟨_, slot, _, rfl⟩ := Remote.acceptLocked_some hplace
      rfl
  | acceptClose t => obtain ⟨_, _, rfl⟩ := Remote.step_acceptClose h; rfl
  | deinit t =>
    obtain ⟨_, rfl⟩ := Remote.step_deinit h
    rw [Remote.move_server]
    by_cases hon : r.server.mgr.isInit
    · exact (Remote.deinit_down hon).2.2.2.2
    · unfold Remote.silogRemoteDeinit
      rw [if_pos (by simpa using hon)]

/-- A `send` takes bytes, or is the last one. -/
theorem callLeft_sendStep {k k' : Remote.Sockets} {i : ℕ} {fd : ℤ} {rest buf : List UInt8}
    {x : Remote.SendResult} {pc : Remote.Pc} (slots : ℕ)
    (h : Remote.sendStep k i fd rest buf x = some (k', pc)) :
    callLeft slots pc < callLeft slots (.sending i fd rest buf) := by
  cases x with
  | accepted n =>
    simp only [Remote.sendStep] at h
    split at h
    · simp only [Option.some.injEq, Prod.mk.injEq] at h
      rw [← h.2]
      split
      · simp only [callLeft]
        omega
      · next hleft =>
        have hlt : (rest.drop (n + 1)).length < rest.length := by
          have hpos : 0 < rest.length := by
            by_contra hzero
            have hnil : rest = [] := List.eq_nil_of_length_eq_zero (by omega)
            rw [hnil] at hleft
            exact hleft (List.drop_nil)
          rw [List.length_drop]
          omega
        simp only [callLeft]
        omega
    · cases h
  | wouldBlock =>
    simp only [Remote.sendStep] at h
    split at h <;> cases h
    simp only [callLeft]
    omega
  | zero =>
    simp only [Remote.sendStep] at h
    split at h <;> cases h
    simp only [callLeft]
    omega
  | failed =>
    cases h
    simp only [callLeft]
    omega

/-- Every step inside a call leaves fewer. -/
theorem callLeft_step {a : Remote.Act Caller} (hin : insider a = some t)
    (h : Remote.ThreadStep r a r') :
    callLeft r.server.mgr.maxClients.toNat (r'.pc t) <
      callLeft r.server.mgr.maxClients.toNat (r.pc t) := by
  have hmax := step_maxClients h
  cases a with
  | broadcast t' entry => cases hin
  | accept t' => cases hin
  | deinit t' => cases hin
  | broadcastLock t' =>
    obtain rfl : t' = t := Option.some.inj hin
    obtain ⟨e, hpc, rfl⟩ := Remote.step_broadcastLock h
    rw [hpc, Remote.move_pc_self]
    exact Nat.lt_succ_of_le (callLeft_broadcastLocked _ e)
  | send t' x =>
    obtain rfl : t' = t := Option.some.inj hin
    simp only [Remote.ThreadStep, Remote.System.next] at h
    split at h
    · next i fd rest buf hpc =>
      obtain ⟨y, hy, rfl⟩ := Option.map_eq_some_iff.mp h
      rw [hpc, Remote.move_pc_self]
      exact callLeft_sendStep _ hy
    · cases h
  | relock t' =>
    obtain rfl : t' = t := Option.some.inj hin
    obtain ⟨i, ret, conn, buf, hpc, rfl⟩ := Remote.step_relock h
    rw [Remote.move_server] at hmax
    have hle := callLeft_broadcastFrom (Remote.afterSend r.server i ret).mgr buf (i + 1)
    rw [hmax] at hle
    rw [hpc, Remote.move_pc_self]
    exact Nat.lt_succ_of_le hle
  | acceptCall t' x =>
    obtain rfl : t' = t := Option.some.inj hin
    obtain ⟨hpc, rfl | ⟨fd, _, _, _, rfl⟩⟩ := Remote.step_acceptCall h <;>
      rw [hpc, Remote.move_pc_self] <;> simp [callLeft]
  | acceptLock t' getFl setFl =>
    obtain rfl : t' = t := Option.some.inj hin
    obtain ⟨fd, hpc, ⟨_, rfl⟩ | ⟨server, _, rfl⟩⟩ := Remote.step_acceptLock h <;>
      rw [hpc, Remote.move_pc_self] <;> simp [callLeft]
  | acceptClose t' =>
    obtain rfl : t' = t := Option.some.inj hin
    obtain ⟨fd, hpc, rfl⟩ := Remote.step_acceptClose h
    rw [hpc, Remote.move_pc_self]
    simp [callLeft]

/-- `Broadcast` sends the bytes of one entry. -/
def Sized : Remote.Pc → Prop
  | .sending _ _ rest buf => rest.length ≤ Remote.entrySize ∧ buf.length ≤ Remote.entrySize
  | .sent _ _ _ buf => buf.length ≤ Remote.entrySize
  | _ => True

theorem sized_broadcastFrom (m : Remote.SilogRemoteManager) {buf : List UInt8}
    (hbuf : buf.length ≤ Remote.entrySize) (k : ℕ) : Sized (Remote.broadcastFrom m buf k) := by
  rcases Remote.broadcastFrom_cases m buf k with h | ⟨i, _, _, _, h⟩
  · rw [h]
    trivial
  · rw [h]
    exact ⟨hbuf, hbuf⟩

theorem sized_broadcastLocked (m : Remote.SilogRemoteManager) (e : LogEntry) :
    Sized (Remote.broadcastLocked m e) := by
  unfold Remote.broadcastLocked
  split
  · trivial
  · rw [Remote.serialize_entry]
    dsimp only
    split
    · trivial
    · apply sized_broadcastFrom
      rw [List.length_take]
      exact Nat.min_le_left _ _

theorem sized_sendStep {k k' : Remote.Sockets} {i : ℕ} {fd : ℤ} {rest buf : List UInt8}
    {x : Remote.SendResult} {pc : Remote.Pc} (hsized : Sized (.sending i fd rest buf))
    (h : Remote.sendStep k i fd rest buf x = some (k', pc)) : Sized pc := by
  obtain ⟨hrest, hbuf⟩ := hsized
  cases x with
  | accepted n =>
    simp only [Remote.sendStep] at h
    split at h
    · simp only [Option.some.injEq, Prod.mk.injEq] at h
      rw [← h.2]
      split
      · exact hbuf
      · refine ⟨?_, hbuf⟩
        rw [List.length_drop]
        omega
    · cases h
  | wouldBlock =>
    simp only [Remote.sendStep] at h
    split at h <;> cases h
    exact hbuf
  | zero =>
    simp only [Remote.sendStep] at h
    split at h <;> cases h
    exact hbuf
  | failed =>
    cases h
    exact hbuf

theorem sized_step {a : Remote.Act Caller} (h : Remote.ThreadStep r a r')
    (hsized : ∀ t, Sized (r.pc t)) (t : Caller) : Sized (r'.pc t) := by
  by_cases ht : t = a.thread
  · subst ht
    cases a with
    | broadcast t entry =>
      obtain ⟨_, pc, rfl, rfl | ⟨e, rfl⟩⟩ := Remote.step_broadcast h <;>
        rw [Remote.Act.thread, Remote.move_pc_self] <;> trivial
    | broadcastLock t =>
      obtain ⟨e, _, rfl⟩ := Remote.step_broadcastLock h
      rw [Remote.Act.thread, Remote.move_pc_self]
      exact sized_broadcastLocked _ e
    | send t x =>
      simp only [Remote.ThreadStep, Remote.System.next] at h
      split at h
      · next i fd rest buf hpc =>
        obtain ⟨y, hy, rfl⟩ := Option.map_eq_some_iff.mp h
        have hold := hsized t
        rw [hpc] at hold
        rw [Remote.Act.thread, Remote.move_pc_self]
        exact sized_sendStep hold hy
      · cases h
    | relock t =>
      obtain ⟨i, ret, conn, buf, hpc, rfl⟩ := Remote.step_relock h
      have hold := hsized t
      rw [hpc] at hold
      rw [Remote.Act.thread, Remote.move_pc_self]
      exact sized_broadcastFrom _ hold _
    | accept t =>
      obtain ⟨_, pc, rfl, rfl | rfl⟩ := Remote.step_accept h <;>
        rw [Remote.Act.thread, Remote.move_pc_self] <;> trivial
    | acceptCall t x =>
      obtain ⟨_, rfl | ⟨fd, _, _, _, rfl⟩⟩ := Remote.step_acceptCall h <;>
        rw [Remote.Act.thread, Remote.move_pc_self] <;> trivial
    | acceptLock t getFl setFl =>
      obtain ⟨fd, _, ⟨_, rfl⟩ | ⟨server, _, rfl⟩⟩ := Remote.step_acceptLock h <;>
        rw [Remote.Act.thread, Remote.move_pc_self] <;> trivial
    | acceptClose t =>
      obtain ⟨_, _, rfl⟩ := Remote.step_acceptClose h
      rw [Remote.Act.thread, Remote.move_pc_self]
      trivial
    | deinit t =>
      obtain ⟨_, rfl⟩ := Remote.step_deinit h
      rw [Remote.Act.thread, Remote.move_pc_self]
      trivial
  · rw [Remote.step_pc_of_ne h ht]
    exact hsized t

theorem callLeft_le {pc : Remote.Pc} (hsized : Sized pc) (slots : ℕ) :
    callLeft slots pc ≤ (slots + 1) * (Remote.entrySize + 3) := by
  have hmul : ∀ i n : ℕ, n ≤ Remote.entrySize →
      (slots - i) * (n + 3) ≤ slots * (Remote.entrySize + 3) :=
    fun i n hn => Nat.mul_le_mul (Nat.sub_le _ _) (Nat.add_le_add_right hn 3)
  rw [Nat.succ_mul]
  cases pc with
  | sending i fd rest buf =>
    have hloop := hmul (i + 1) _ hsized.2
    have hrest : rest.length ≤ Remote.entrySize := hsized.1
    simp only [callLeft]
    omega
  | sent i ret conn buf =>
    have hloop := hmul (i + 1) _ hsized
    simp only [callLeft]
    omega
  | _ =>
    simp only [callLeft]
    omega

/-- A call that has not returned can make a step. -/
theorem call_enabled (hpc : r.pc t ≠ .idle) :
    ∃ a r', insider a = some t ∧ r.next a = some r' := by
  cases h : r.pc t with
  | idle => exact absurd h hpc
  | broadcast e =>
    refine ⟨.broadcastLock t, r.move t r.server (Remote.broadcastLocked r.server.mgr e), rfl, ?_⟩
    simp only [Remote.System.next, h]
  | sending i fd rest buf => exact ⟨.send t .failed, _, rfl, Remote.enabled_send_failed h⟩
  | sent i ret conn buf => exact ⟨.relock t, _, rfl, Remote.enabled_relock h⟩
  | accepting =>
    refine ⟨.acceptCall t .wouldBlock, r.move t r.server .idle, rfl, ?_⟩
    simp only [Remote.System.next, h]
  | accepted fd =>
    obtain ⟨r', hr'⟩ : ∃ r', r.next (.acceptLock t true true) = some r' := by
      simp only [Remote.System.next, h]
      split
      · exact ⟨_, rfl⟩
      · exact ⟨_, rfl⟩
    exact ⟨.acceptLock t true true, r', rfl, hr'⟩
  | rejecting fd =>
    refine ⟨.acceptClose t,
      r.move t { r.server with kernel := r.server.kernel.close fd } .idle, rfl, ?_⟩
    simp only [Remote.System.next, h]

end calls

/-! ## Section 2: Steps left to a thread -/

/-- The slots of the client table. -/
def State.slots (s : State) : ℕ := s.remote.server.mgr.maxClients.toNat

/-- A bound on the steps of a write thread up to its next loop test, in the body of
    its loop at `write` and with its call of `Broadcast` at `pc`. -/
def bodyLeft (slots : ℕ) (pc : Remote.Pc) : WritePc → ℕ
  | .before => slots * (Remote.entrySize + 3) + 7
  | .call _ => slots * (Remote.entrySize + 3) + 6
  | .inside => callLeft slots pc + 4
  | .after => 3

/-- A bound on the steps of a thread at `pc` once its flag is cleared. -/
def threadLeft (body : ℕ) : ThreadPc → ℕ
  | .ipcInit => 3
  | .test => 2
  | .body => body
  | .left => 1
  | .done => 0

/-- The same for a remote service thread, with its call of `Accept` at `pc`. -/
def acceptLeft (slots : ℕ) (pc : Remote.Pc) : AcceptPc → ℕ
  | .test => 1
  | .call => 6
  | .inside => callLeft slots pc + 2
  | .done => 0

/-- A bound on the steps that thread `t` still takes once its flag is cleared.  The receive
    thread is counted as `write k` too: its place in `write` is always `before`. -/
def State.left (s : State) : Caller → ℕ
  | .main => 0
  | .write k => (s.daemon.threads[k]?.map fun t =>
      threadLeft (bodyLeft s.slots (s.remote.pc (.write k)) (s.write k)) t.pc).getD 0
  | .remote k => (s.acceptors[k]?.map (acceptLeft s.slots (s.remote.pc (.remote k)))).getD 0

/-- The thread whose step it is; the main thread's steps have none. -/
def owner : Act → Option Caller
  | .daemon (.thread k) => some (.write k)
  | .testEnabled k _ | .broadcast k | .leaveBroadcast k => some (.write k)
  | .acceptTest k | .accept k | .leaveAccept k => some (.remote k)
  | .serve a => some a.thread
  | _ => none

/-- The main thread waits, with `a` its next step, for thread `t` to end. -/
def State.Waits (s : State) : Caller → Act → Prop
  | .write k, .daemon .joinRecv => s.daemon.main = .joinRecv ∧ s.daemon.recvThread = some k
  | .write k, .daemon .joinWrite => s.daemon.main = .joinWrite ∧ s.daemon.writeThread = some k
  | .remote k, .joinRemote => s.main = .join ∧ s.remoteThread = some k
  | _, _ => False

/-- The flag that thread `t` tests is cleared. -/
def State.Cleared (s : State) : Caller → Prop
  | .main => False
  | .write _ => s.daemon.running = false
  | .remote _ => s.remoteRunning = false

section threads
variable {s s' : State} {k : ℕ}

theorem left_write {t : Thread} (ht : s.daemon.threads[k]? = some t) :
    s.left (.write k) =
      threadLeft (bodyLeft s.slots (s.remote.pc (.write k)) (s.write k)) t.pc := by
  simp only [State.left, ht, Option.map_some, Option.getD_some]

theorem left_remote {pc : AcceptPc} (hk : s.acceptors[k]? = some pc) :
    s.left (.remote k) = acceptLeft s.slots (s.remote.pc (.remote k)) pc := by
  simp only [State.left, hk, Option.map_some, Option.getD_some]

/-- The end of the body is the last that is left of it. -/
theorem two_lt_bodyLeft (slots : ℕ) (pc : Remote.Pc) (w : WritePc) : 2 < bodyLeft slots pc w := by
  cases w <;> simp only [bodyLeft] <;> omega

theorem threadLeft_step {t t' : Thread} (h : t.step false = some t') (body : ℕ) {body' : ℕ}
    (hbody : 2 < body') : threadLeft body t'.pc < threadLeft body' t.pc := by
  unfold Thread.step at h
  split at h
  · next hpc => cases h; simp [hpc, threadLeft]
  · next hpc => cases h; simp [hpc, threadLeft]
  · next hpc => cases h; simpa [hpc, threadLeft] using hbody
  · next hpc => cases h; simp [hpc, threadLeft]
  · cases h

/-- A step of the daemon by thread `k`. -/
theorem left_thread {d : Daemon.State} (hflag : s.daemon.running = false)
    (hd : Daemon.step s.daemon (.thread k) = some d) (w : ℕ → WritePc) :
    State.left { s with daemon := d, write := w } (.write k) < s.left (.write k) := by
  obtain ⟨t, t', ht, hstep, rfl⟩ := step_thread hd
  obtain ⟨hlt, _⟩ := List.getElem?_eq_some_iff.mp ht
  have hnew : (s.daemon.threads.set k t')[k]? = some t' := List.getElem?_set_self hlt
  rw [hflag] at hstep
  rw [left_write ht, left_write hnew]
  exact threadLeft_step hstep _ (two_lt_bodyLeft _ _ _)

/-- A write thread inside the body of its loop. -/
theorem left_body (h : s.daemon.threads[k]? = some { role := .write, pc := .body }) :
    s.left (.write k) = bodyLeft s.slots (s.remote.pc (.write k)) (s.write k) :=
  left_write h

theorem body_of_leavesBody (h : s.leavesBody k) :
    s.daemon.threads[k]? = some { role := .write, pc := .body } := by
  simpa [State.leavesBody] using h

theorem left_setWrite (h : s.daemon.threads[k]? = some { role := .write, pc := .body })
    (pc : WritePc) :
    (s.setWrite k pc).left (.write k) = bodyLeft s.slots (s.remote.pc (.write k)) pc := by
  have h' : (s.setWrite k pc).daemon.threads[k]? = some { role := .write, pc := .body } := h
  rw [left_body h']
  simp only [State.setWrite, Function.update_self]
  rfl

theorem left_setAcceptor {old : AcceptPc} (h : s.acceptors[k]? = some old) (pc : AcceptPc) :
    (s.setAcceptor k pc).left (.remote k) = acceptLeft s.slots (s.remote.pc (.remote k)) pc := by
  obtain ⟨hlt, _⟩ := List.getElem?_eq_some_iff.mp h
  have hnew : (s.setAcceptor k pc).acceptors[k]? = some pc := List.getElem?_set_self hlt
  rw [left_remote hnew]
  rfl

theorem inside_of_isInside (h : s.isInside (.write k)) : s.write k = .inside := by
  unfold State.isInside at h
  dsimp only at h
  split at h
  · next hpc => exact hpc
  · cases h

/-- A call of `Broadcast` that begins. -/
theorem callLeft_begin_broadcast {r r' : Remote.System Caller} {t : Caller}
    {entry : Option LogEntry} (h : Remote.ThreadStep r (.broadcast t entry) r') :
    callLeft r'.server.mgr.maxClients.toNat (r'.pc t) ≤
      r.server.mgr.maxClients.toNat * (Remote.entrySize + 3) + 1 := by
  obtain ⟨_, pc, rfl, rfl | ⟨e, rfl⟩⟩ := Remote.step_broadcast h <;> rw [Remote.move_pc_self]
  · exact Nat.zero_le _
  · exact le_refl _

/-- A call of `Accept` that begins. -/
theorem callLeft_begin_accept {r r' : Remote.System Caller} {t : Caller}
    (h : Remote.ThreadStep r (.accept t) r') :
    callLeft r'.server.mgr.maxClients.toNat (r'.pc t) ≤ 3 := by
  obtain ⟨_, pc, rfl, rfl | rfl⟩ := Remote.step_accept h <;> rw [Remote.move_pc_self]
  · exact Nat.zero_le _
  · exact le_refl _

/-- A step of thread `t` inside a call of the service. -/
theorem left_serve (hI : Inv s) {a : Remote.Act Caller} {t : Caller} (hin : insider a = some t)
    (hinside : s.isInside t) (h : s.serve a = some s') : s'.left t < s.left t := by
  obtain ⟨r, hr, rfl⟩ := Option.map_eq_some_iff.mp h
  have hstep : Remote.ThreadStep s.remote a r := hr
  have hlt : callLeft r.server.mgr.maxClients.toNat (r.pc t) <
      callLeft s.slots (s.remote.pc t) := by
    rw [step_maxClients hstep]
    exact callLeft_step hin hstep
  cases t with
  | main => cases hinside
  | write k =>
    have hbody := (hI.control.writers k (calling_of_isInside hinside)).1
    have hbody' : ({ s with remote := r } : State).daemon.threads[k]? =
        some { role := .write, pc := .body } := hbody
    rw [left_body hbody', left_body hbody]
    show bodyLeft _ _ (s.write k) < bodyLeft _ _ (s.write k)
    rw [inside_of_isInside hinside]
    exact Nat.add_lt_add_right hlt 4
  | remote k =>
    have hk := isInside_remote.mp hinside
    have hk' : ({ s with remote := r } : State).acceptors[k]? = some .inside := hk
    rw [left_remote hk', left_remote hk]
    exact Nat.add_lt_add_right hlt 2

/-- Every step of the thread leaves fewer. -/
theorem left_own (hI : Inv s) {a : Act} {t : Caller} (hcleared : s.Cleared t) (h : Step s a s')
    (hown : owner a = some t) : s'.left t < s.left t := by
  unfold Step Service.step at h
  cases a with
  | daemon a =>
    cases a with
    | thread k =>
      obtain rfl : Caller.write k = t := Option.some.inj hown
      simp only [daemonStep] at h
      split at h
      · split at h
        · obtain ⟨d, hd, rfl⟩ := Option.map_eq_some_iff.mp h
          exact left_thread hcleared hd _
        · obtain ⟨d, hd, rfl⟩ := Option.map_eq_some_iff.mp h
          exact left_thread hcleared hd _
        · cases h
      · obtain ⟨d, hd, rfl⟩ := Option.map_eq_some_iff.mp h
        exact left_thread hcleared hd _
    | _ => cases hown
  | testEnabled k entry =>
    obtain rfl : Caller.write k = t := Option.some.inj hown
    dsimp only at h
    split at h
    · next hbody =>
      split at h <;> cases h
      next hpc =>
      have hb := body_of_leavesBody hbody
      rw [left_setWrite hb, left_body hb, hpc]
      cases s.daemon.remoteEnabled <;> simp [bodyLeft]
    · cases h
  | broadcast k =>
    obtain rfl : Caller.write k = t := Option.some.inj hown
    dsimp only at h
    split at h
    · next entry hpc =>
      have hb := (hI.control.writers k (by rw [hpc]; rfl)).1
      obtain ⟨r, hr, rfl⟩ := Option.map_eq_some_iff.mp h
      have hle := callLeft_begin_broadcast hr
      have hb' : ({ s.setWrite k .inside with remote := r } : State).daemon.threads[k]? =
          some { role := .write, pc := .body } := hb
      rw [left_body hb', left_body hb, hpc]
      simp only [State.setWrite, Function.update_self, bodyLeft, State.slots] at hle ⊢
      omega
    · cases h
  | leaveBroadcast k =>
    obtain rfl : Caller.write k = t := Option.some.inj hown
    dsimp only at h
    split at h
    · next hcond =>
      cases h
      have hb := (hI.control.writers k (calling_of_isInside hcond.1)).1
      rw [left_setWrite hb, left_body hb, inside_of_isInside hcond.1]
      simp only [bodyLeft]
      omega
    · cases h
  | acceptTest k =>
    obtain rfl : Caller.remote k = t := Option.some.inj hown
    dsimp only at h
    split at h
    · next hk =>
      cases h
      have hflag : s.remoteRunning = false := hcleared
      rw [hflag, left_setAcceptor hk, left_remote hk]
      exact Nat.zero_lt_one
    · cases h
  | accept k =>
    obtain rfl : Caller.remote k = t := Option.some.inj hown
    dsimp only at h
    split at h
    · next hk =>
      obtain ⟨r, hr, rfl⟩ := Option.map_eq_some_iff.mp h
      have hle := callLeft_begin_accept hr
      obtain ⟨hlt, _⟩ := List.getElem?_eq_some_iff.mp hk
      have hk' : ({ s.setAcceptor k .inside with remote := r } : State).acceptors[k]? =
          some .inside := List.getElem?_set_self hlt
      rw [left_remote hk', left_remote hk]
      exact Nat.lt_succ_of_le (Nat.add_le_add_right hle 2)
    · cases h
  | leaveAccept k =>
    obtain rfl : Caller.remote k = t := Option.some.inj hown
    dsimp only at h
    split at h
    · next hcond =>
      cases h
      have hk := isInside_remote.mp hcond.1
      rw [left_setAcceptor hk, left_remote hk]
      simp only [acceptLeft]
      omega
    · cases h
  | serve a =>
    dsimp only at h
    split at h
    · next hin =>
      obtain ⟨t', ht', hinside⟩ := (Option.any_eq_true _ _).mp hin
      obtain ⟨hthread, _, _⟩ := insider_some ht'
      obtain rfl : t' = t := by
        rw [← hthread]
        exact Option.some.inj hown
      exact left_serve hI ht' hinside h
    · cases h
  | _ => cases hown

end threads

/-! ## Section 3: The other threads -/

/-- Thread `t` has been created. -/
def State.Has (s : State) : Caller → Prop
  | .main => False
  | .write k => k < s.daemon.threads.length
  | .remote k => k < s.acceptors.length

/-- Thread `t` is at the same place in its loop. -/
def State.Same (s s' : State) : Caller → Prop
  | .main => True
  | .write k => s'.daemon.threads[k]? = s.daemon.threads[k]? ∧ s'.write k = s.write k
  | .remote k => s'.acceptors[k]? = s.acceptors[k]?

section others
variable {s s' : State} {t : Caller}

theorem State.Same.refl (s : State) (t : Caller) : s.Same s t := by
  cases t with
  | main => trivial
  | write k => exact ⟨rfl, rfl⟩
  | remote k => rfl

theorem left_congr (hsame : s.Same s' t) (hslots : s'.slots = s.slots)
    (hpc : s'.remote.pc t = s.remote.pc t) : s'.left t = s.left t := by
  cases t with
  | main => rfl
  | write k =>
    obtain ⟨hthread, hwrite⟩ := hsame
    simp only [State.left, hthread, hwrite, hslots, hpc]
  | remote k =>
    have hthread : s'.acceptors[k]? = s.acceptors[k]? := hsame
    simp only [State.left, hthread, hslots, hpc]

/-- A step of the service by another thread. -/
theorem left_serve_other {a : Remote.Act Caller} {r : Remote.System Caller}
    (hr : Remote.ThreadStep s.remote a r) (ht : t ≠ a.thread) (hsame : s.Same s' t) :
    State.left { s' with remote := r } t = s.left t := by
  apply left_congr
  · cases t <;> exact hsame
  · show r.server.mgr.maxClients.toNat = s.slots
    rw [step_maxClients hr]
    rfl
  · exact Remote.step_pc_of_ne hr ht

/-- A step of the main thread keeps the threads that are there. -/
theorem same_daemon (hhas : s.Has t)
    (hthreads : ∀ (k : ℕ) (u : Thread), s.daemon.threads[k]? = some u →
      s'.daemon.threads[k]? = some u)
    (hwrite : s'.write = s.write) (hacceptors : s'.acceptors = s.acceptors) : s.Same s' t := by
  cases t with
  | main => trivial
  | write k =>
    have hk := List.getElem?_eq_getElem (hhas : k < s.daemon.threads.length)
    exact ⟨(hthreads k _ hk).trans hk.symm, congrFun hwrite k⟩
  | remote k =>
    show s'.acceptors[k]? = s.acceptors[k]?
    rw [hacceptors]

theorem same_thread {k : ℕ} {d : Daemon.State} {w : ℕ → WritePc} (ht : t ≠ .write k)
    (hd : Daemon.step s.daemon (.thread k) = some d) (hw : ∀ j, j ≠ k → w j = s.write j) :
    s.Same { s with daemon := d, write := w } t := by
  obtain ⟨_, t', _, _, rfl⟩ := step_thread hd
  cases t with
  | main => trivial
  | write j =>
    have hjk : j ≠ k := by
      rintro rfl
      exact ht rfl
    exact ⟨List.getElem?_set_ne (Ne.symm hjk), hw j hjk⟩
  | remote j => rfl

theorem same_setWrite {k : ℕ} (ht : t ≠ .write k) (pc : WritePc) : s.Same (s.setWrite k pc) t := by
  cases t with
  | main => trivial
  | write j =>
    have hjk : j ≠ k := by
      rintro rfl
      exact ht rfl
    exact ⟨rfl, Function.update_of_ne hjk _ _⟩
  | remote j => rfl

theorem same_setAcceptor {k : ℕ} (ht : t ≠ .remote k) (pc : AcceptPc) :
    s.Same (s.setAcceptor k pc) t := by
  cases t with
  | main => trivial
  | write j => exact ⟨rfl, rfl⟩
  | remote j =>
    have hjk : j ≠ k := by
      rintro rfl
      exact ht rfl
    exact List.getElem?_set_ne (Ne.symm hjk)

theorem ne_of_owner {a : Act} {u : Caller} (hown : owner a ≠ some t) (hu : owner a = some u) :
    t ≠ u := by
  rintro rfl
  exact hown hu

/-- Outside of `SilogDaemonRemoteInit` a step of another thread leaves as many. -/
theorem left_other (hI : Inv s) (hmain : s.daemon.main ≠ .remoteInit) (hhas : s.Has t) {a : Act}
    (h : Step s a s') (hown : owner a ≠ some t) : s'.left t = s.left t := by
  have hstart : s.main.starting = false := by
    by_contra hno
    exact hmain (hI.control.starting (by simpa using hno)).1
  have htmain : t ≠ .main := by
    rintro rfl
    exact hhas
  unfold Step Service.step at h
  cases a with
  | daemon a =>
    cases a with
    | initRemote ret => cases h
    | release =>
      simp only [daemonStep] at h
      split at h
      · obtain ⟨d, hd, rfl⟩ := Option.map_eq_some_iff.mp h
        refine left_congr (same_daemon hhas ?_ rfl rfl) rfl rfl
        intro k u hk
        rw [(step_release hd).2.2.2]
        exact hk
      · cases h
    | thread k =>
      have ht : t ≠ .write k := ne_of_owner hown rfl
      simp only [daemonStep] at h
      split at h
      · split at h
        · obtain ⟨d, hd, rfl⟩ := Option.map_eq_some_iff.mp h
          exact left_congr (same_thread ht hd fun _ _ => rfl) rfl rfl
        · obtain ⟨d, hd, rfl⟩ := Option.map_eq_some_iff.mp h
          exact left_congr (same_thread ht hd fun _ hj => Function.update_of_ne hj _ _) rfl rfl
        · cases h
      · obtain ⟨d, hd, rfl⟩ := Option.map_eq_some_iff.mp h
        exact left_congr (same_thread ht hd fun _ _ => rfl) rfl rfl
    | _ =>
      obtain ⟨d, hd, rfl⟩ := Option.map_eq_some_iff.mp h
      exact left_congr (same_daemon hhas (step_plain rfl hd).2.2.2 rfl rfl) rfl rfl
  | remoteInit env =>
    dsimp only at h
    split at h
    · next hcond => exact absurd hcond.1 hmain
    · cases h
  | remoteDeinit =>
    dsimp only at h
    split at h
    · cases h
      exact left_congr (State.Same.refl s t) rfl rfl
    · cases h
  | joinRemote =>
    dsimp only at h
    split at h
    · cases h
      exact left_congr (State.Same.refl s t) rfl rfl
    · cases h
  | deinit =>
    dsimp only at h
    split at h
    · obtain ⟨_, hserve, rfl⟩ := Option.map_eq_some_iff.mp h
      obtain ⟨r, hr, rfl⟩ := Option.map_eq_some_iff.mp hserve
      exact left_serve_other hr htmain (State.Same.refl s t)
    · cases h
  | disable =>
    dsimp only at h
    split at h
    · obtain ⟨d, hd, rfl⟩ := Option.map_eq_some_iff.mp h
      refine left_congr (same_daemon hhas ?_ rfl rfl) rfl rfl
      intro k u hk
      rw [(step_release hd).2.2.2]
      exact hk
    · cases h
  | testEnabled k entry =>
    have ht : t ≠ .write k := ne_of_owner hown rfl
    dsimp only at h
    split at h
    · split at h <;> cases h
      exact left_congr (same_setWrite ht _) rfl rfl
    · cases h
  | broadcast k =>
    have ht : t ≠ .write k := ne_of_owner hown rfl
    dsimp only at h
    split at h
    · obtain ⟨r, hr, rfl⟩ := Option.map_eq_some_iff.mp h
      exact left_serve_other hr ht (same_setWrite ht .inside)
    · cases h
  | leaveBroadcast k =>
    have ht : t ≠ .write k := ne_of_owner hown rfl
    dsimp only at h
    split at h
    · cases h
      exact left_congr (same_setWrite ht _) rfl rfl
    · cases h
  | acceptTest k =>
    have ht : t ≠ .remote k := ne_of_owner hown rfl
    dsimp only at h
    split at h
    · cases h
      exact left_congr (same_setAcceptor ht _) rfl rfl
    · cases h
  | accept k =>
    have ht : t ≠ .remote k := ne_of_owner hown rfl
    dsimp only at h
    split at h
    · obtain ⟨r, hr, rfl⟩ := Option.map_eq_some_iff.mp h
      exact left_serve_other hr ht (same_setAcceptor ht .inside)
    · cases h
  | leaveAccept k =>
    have ht : t ≠ .remote k := ne_of_owner hown rfl
    dsimp only at h
    split at h
    · cases h
      exact left_congr (same_setAcceptor ht _) rfl rfl
    · cases h
  | serve a =>
    have ht : t ≠ a.thread := ne_of_owner hown rfl
    dsimp only at h
    split at h
    · obtain ⟨r, hr, rfl⟩ := Option.map_eq_some_iff.mp h
      exact left_serve_other hr ht (State.Same.refl s t)
    · cases h
  | _ =>
    dsimp only at h
    split at h
    · next hpc =>
      rw [hpc] at hstart
      cases hstart
    · cases h

end others

/-! ## Section 4: The handles -/

/-- The handles are those of threads that were created, and the remote service thread is
    joined only after its flag is cleared. -/
structure Handles (s : State) : Prop where
  daemon : ∀ k, s.daemon.recvThread = some k ∨ s.daemon.writeThread = some k →
    k < s.daemon.threads.length
  remote : ∀ k, s.remoteThread = some k → k < s.acceptors.length
  flag   : s.main = .join → s.remoteRunning = false

section handles
variable {s s' : State}

/-- A handle that a step of the daemon leaves is an old one, or that of the thread which
    it has created. -/
theorem step_handles {d d' : Daemon.State} {a : Daemon.Act} (h : Daemon.step d a = some d') :
    d.threads.length ≤ d'.threads.length ∧
    ∀ k, d'.recvThread = some k ∨ d'.writeThread = some k →
      (d.recvThread = some k ∨ d.writeThread = some k) ∨ k < d'.threads.length := by
  unfold Daemon.step at h
  split at h
  · split at h <;> cases h <;> exact ⟨le_refl _, fun _ hk => Or.inl hk⟩
  · split at h <;> cases h <;> exact ⟨le_refl _, fun _ hk => Or.inl hk⟩
  · split at h <;> cases h <;> exact ⟨le_refl _, fun _ hk => Or.inl hk⟩
  · split at h <;> cases h <;> exact ⟨le_refl _, fun _ hk => Or.inl hk⟩
  · -- `createRecv`
    split at h <;> cases h
    · refine ⟨by simp, ?_⟩
      rintro k (hk | hk)
      · cases hk
        exact Or.inr (by simp)
      · exact Or.inl (Or.inr hk)
    · refine ⟨le_refl _, ?_⟩
      rintro k (hk | hk)
      · cases hk
      · exact Or.inl (Or.inr hk)
  · -- `createWrite`
    split at h <;> cases h
    · refine ⟨by simp, ?_⟩
      rintro k (hk | hk)
      · exact Or.inl (Or.inl hk)
      · cases hk
        exact Or.inr (by simp)
    · refine ⟨le_refl _, ?_⟩
      rintro k (hk | hk)
      · exact Or.inl (Or.inl hk)
      · cases hk
  · cases h
    exact ⟨le_refl _, fun _ hk => Or.inl hk⟩
  · cases h
    exact ⟨le_refl _, fun _ hk => Or.inl hk⟩
  · cases h
    exact ⟨le_refl _, fun _ hk => Or.inl hk⟩
  · cases h
    exact ⟨le_refl _, fun _ hk => Or.inl hk⟩
  · -- `joinRecv`
    split at h <;> cases h
    refine ⟨le_refl _, ?_⟩
    rintro k (hk | hk)
    · cases hk
    · exact Or.inl (Or.inr hk)
  · -- `joinWrite`
    split at h <;> cases h
    refine ⟨le_refl _, ?_⟩
    rintro k (hk | hk)
    · exact Or.inl (Or.inl hk)
    · cases hk
  · cases h
    exact ⟨le_refl _, fun _ hk => Or.inl hk⟩
  · split at h
    · obtain ⟨t', _, rfl⟩ := Option.map_eq_some_iff.mp h
      exact ⟨by simp, fun _ hk => Or.inl hk⟩
    · cases h
  · cases h

/-- A step of the daemon keeps the handles of the daemon, a step that leaves the handle of
    the remote service thread keeps that one. -/
theorem Handles.lift (hH : Handles s) {a : Daemon.Act} {d : Daemon.State}
    (hd : Daemon.step s.daemon a = some d) (hdaemon : s'.daemon = d)
    (hhandle : s'.remoteThread = s.remoteThread) (hacceptors : s'.acceptors = s.acceptors)
    (hflag : s'.main = .join → s'.remoteRunning = false) : Handles s' := by
  obtain ⟨hlen, hnew⟩ := step_handles hd
  refine ⟨?_, ?_, hflag⟩
  · intro k hk
    rw [hdaemon] at hk ⊢
    rcases hnew k hk with hold | hlt
    · exact (hH.daemon k hold).trans_le hlen
    · exact hlt
  · rw [hhandle, hacceptors]
    exact hH.remote

/-- A step that leaves the daemon alone. -/
theorem Handles.keep (hH : Handles s) (hdaemon : s'.daemon = s.daemon)
    (hhandle : s'.remoteThread = s.remoteThread)
    (hlen : s'.acceptors.length = s.acceptors.length)
    (hflag : s'.main = .join → s'.remoteRunning = false) : Handles s' := by
  refine ⟨?_, ?_, hflag⟩
  · rw [hdaemon]
    exact hH.daemon
  · rw [hhandle, hlen]
    exact hH.remote

theorem Handles.finish (hH : Handles s) {ret : ErrorCode} {remote : Remote.System Caller}
    (h : ({ s with remote := remote } : State).finish ret = some s') : Handles s' := by
  obtain ⟨d, hd, rfl⟩ := Option.map_eq_some_iff.mp h
  exact hH.lift hd rfl rfl rfl fun hmain => by cases hmain

theorem Handles.step (hH : Handles s) {a : Act} (h : Step s a s') : Handles s' := by
  unfold Step Service.step at h
  cases a with
  | daemon a =>
    cases a with
    | initRemote ret => cases h
    | release =>
      simp only [daemonStep] at h
      split at h
      · obtain ⟨d, hd, rfl⟩ := Option.map_eq_some_iff.mp h
        exact hH.lift hd rfl rfl rfl hH.flag
      · cases h
    | thread k =>
      simp only [daemonStep] at h
      split at h
      · split at h
        · obtain ⟨d, hd, rfl⟩ := Option.map_eq_some_iff.mp h
          exact hH.lift hd rfl rfl rfl hH.flag
        · obtain ⟨d, hd, rfl⟩ := Option.map_eq_some_iff.mp h
          exact hH.lift hd rfl rfl rfl hH.flag
        · cases h
      · obtain ⟨d, hd, rfl⟩ := Option.map_eq_some_iff.mp h
        exact hH.lift hd rfl rfl rfl hH.flag
    | _ =>
      obtain ⟨d, hd, rfl⟩ := Option.map_eq_some_iff.mp h
      exact hH.lift hd rfl rfl rfl hH.flag
  | remoteInit env =>
    dsimp only at h
    split at h
    · simp only [remoteInitStep] at h
      split at h
      · exact hH.finish h
      · split at h
        · exact hH.finish h
        · split at h <;> cases h
          · exact hH.keep rfl rfl rfl fun hmain => by cases hmain
          · exact hH.keep rfl rfl rfl fun hmain => by cases hmain
    · cases h
  | createRemote ok =>
    dsimp only at h
    split at h
    · split at h <;> cases h
      · refine ⟨hH.daemon, ?_, fun hmain => by cases hmain⟩
        intro k hk
        cases hk
        simp
      · exact hH.keep rfl rfl rfl fun hmain => by cases hmain
    · cases h
  | undo =>
    dsimp only at h
    split at h
    · obtain ⟨_, hserve, h⟩ := Option.bind_eq_some_iff.mp h
      obtain ⟨r, _, rfl⟩ := Option.map_eq_some_iff.mp hserve
      exact hH.finish h
    · cases h
  | enable =>
    dsimp only at h
    split at h
    · exact hH.finish h
    · cases h
  | remoteDeinit =>
    dsimp only at h
    split at h <;> cases h
    exact hH.keep rfl rfl rfl fun _ => rfl
  | joinRemote =>
    dsimp only at h
    split at h <;> cases h
    refine ⟨hH.daemon, ?_, ?_⟩
    · intro k hk
      cases hk
    · intro hmain
      cases hmain
  | deinit =>
    dsimp only at h
    split at h
    · obtain ⟨_, hserve, rfl⟩ := Option.map_eq_some_iff.mp h
      obtain ⟨r, _, rfl⟩ := Option.map_eq_some_iff.mp hserve
      exact hH.keep rfl rfl rfl fun hmain => by cases hmain
    · cases h
  | disable =>
    dsimp only at h
    split at h
    · obtain ⟨d, hd, rfl⟩ := Option.map_eq_some_iff.mp h
      exact hH.lift hd rfl rfl rfl fun hmain => by cases hmain
    · cases h
  | testEnabled k entry =>
    dsimp only at h
    split at h
    · split at h <;> cases h
      exact hH.keep rfl rfl rfl hH.flag
    · cases h
  | broadcast k =>
    dsimp only at h
    split at h
    · obtain ⟨r, _, rfl⟩ := Option.map_eq_some_iff.mp h
      exact hH.keep rfl rfl rfl hH.flag
    · cases h
  | leaveBroadcast k =>
    dsimp only at h
    split at h <;> cases h
    exact hH.keep rfl rfl rfl hH.flag
  | acceptTest k =>
    dsimp only at h
    split at h <;> cases h
    exact hH.keep rfl rfl List.length_set hH.flag
  | accept k =>
    dsimp only at h
    split at h
    · obtain ⟨r, _, rfl⟩ := Option.map_eq_some_iff.mp h
      exact hH.keep rfl rfl List.length_set hH.flag
    · cases h
  | leaveAccept k =>
    dsimp only at h
    split at h <;> cases h
    exact hH.keep rfl rfl List.length_set hH.flag
  | serve a =>
    dsimp only at h
    split at h
    · obtain ⟨r, _, rfl⟩ := Option.map_eq_some_iff.mp h
      exact hH.keep rfl rfl rfl hH.flag
    · cases h
  | _ =>
    -- `publish` and `storeRunning`
    dsimp only at h
    split at h <;> cases h
    exact hH.keep rfl rfl rfl fun hmain => by cases hmain

theorem handles_initial : Handles State.initial := by
  refine ⟨?_, ?_, ?_⟩
  · rintro k (hk | hk) <;> cases hk
  · intro k hk
    cases hk
  · intro hmain
    cases hmain

theorem lift_remote {a : Daemon.Act} (h : s.lift a = some s') : s'.remote = s.remote := by
  obtain ⟨d, _, rfl⟩ := Option.map_eq_some_iff.mp h
  rfl

theorem finish_remote {ret : ErrorCode} (h : s.finish ret = some s') : s'.remote = s.remote := by
  obtain ⟨d, _, rfl⟩ := Option.map_eq_some_iff.mp h
  rfl

theorem serve_remote {a : Remote.Act Caller} (h : s.serve a = some s') :
    Remote.ThreadStep s.remote a s'.remote := by
  obtain ⟨r, hr, rfl⟩ := Option.map_eq_some_iff.mp h
  exact hr

/-- The calls of the service go on by steps of the service only. -/
theorem step_remote {a : Act} (h : Step s a s') :
    s'.remote.pc = s.remote.pc ∨ ∃ b, Remote.ThreadStep s.remote b s'.remote := by
  unfold Step Service.step at h
  cases a with
  | daemon a =>
    left
    cases a with
    | initRemote ret => cases h
    | release =>
      simp only [daemonStep] at h
      split at h
      · rw [lift_remote h]
      · cases h
    | thread k =>
      simp only [daemonStep] at h
      split at h
      · split at h
        · rw [lift_remote h]
        · rw [lift_remote h]
          rfl
        · cases h
      · rw [lift_remote h]
    | _ => rw [lift_remote h]
  | remoteInit env =>
    left
    dsimp only at h
    split at h
    · simp only [remoteInitStep] at h
      split at h
      · rw [finish_remote h]
      · split at h
        · rw [finish_remote h]
          rfl
        · split at h <;> cases h <;> rfl
    · cases h
  | undo =>
    right
    dsimp only at h
    split at h
    · obtain ⟨_, hserve, h⟩ := Option.bind_eq_some_iff.mp h
      rw [finish_remote h]
      exact ⟨_, serve_remote hserve⟩
    · cases h
  | enable =>
    left
    dsimp only at h
    split at h
    · rw [finish_remote h]
    · cases h
  | deinit =>
    right
    dsimp only at h
    split at h
    · obtain ⟨_, hserve, rfl⟩ := Option.map_eq_some_iff.mp h
      have hr := serve_remote hserve
      exact ⟨_, hr⟩
    · cases h
  | disable =>
    left
    dsimp only at h
    split at h
    · rw [lift_remote h]
    · cases h
  | createRemote ok =>
    left
    dsimp only at h
    split at h
    · split at h <;> cases h <;> rfl
    · cases h
  | testEnabled k entry =>
    left
    dsimp only at h
    split at h
    · split at h <;> cases h
      rfl
    · cases h
  | broadcast k =>
    right
    dsimp only at h
    split at h
    · have hr := serve_remote h
      exact ⟨_, hr⟩
    · cases h
  | accept k =>
    right
    dsimp only at h
    split at h
    · have hr := serve_remote h
      exact ⟨_, hr⟩
    · cases h
  | serve a =>
    right
    dsimp only at h
    split at h
    · exact ⟨_, serve_remote h⟩
    · cases h
  | _ =>
    left
    dsimp only at h
    split at h <;> cases h
    rfl

/-- What the steps left to a thread are at most. -/
theorem left_le (hsized : ∀ t, Sized (s.remote.pc t)) (t : Caller) :
    s.left t ≤ (s.slots + 1) * (Remote.entrySize + 3) + 7 := by
  have hmul : (s.slots + 1) * (Remote.entrySize + 3) =
      s.slots * (Remote.entrySize + 3) + (Remote.entrySize + 3) := Nat.succ_mul _ _
  have hcall := callLeft_le (hsized t) s.slots
  cases t with
  | main => exact Nat.zero_le _
  | write k =>
    have hbody : bodyLeft s.slots (s.remote.pc (.write k)) (s.write k) ≤
        (s.slots + 1) * (Remote.entrySize + 3) + 7 := by
      cases s.write k <;> simp only [bodyLeft] <;> omega
    cases hu : s.daemon.threads[k]? with
    | none => simp [State.left, hu]
    | some u =>
      rw [left_write hu]
      cases u.pc <;> simp only [threadLeft] <;> omega
  | remote k =>
    cases hu : s.acceptors[k]? with
    | none => simp [State.left, hu]
    | some pc =>
      rw [left_remote hu]
      cases pc <;> simp only [acceptLeft] <;> omega

/-- While the main thread waits for a thread, that thread is there and its flag is cleared. -/
theorem waits_spec (hI : Inv s) (hH : Handles s) {t : Caller} {a : Act} (hwait : s.Waits t a) :
    s.Has t ∧ s.Cleared t ∧ s.daemon.main ≠ .remoteInit := by
  unfold State.Waits at hwait
  split at hwait
  · obtain ⟨hmain, hhandle⟩ := hwait
    exact ⟨hH.daemon _ (Or.inl hhandle), hI.control.crew.not_running (by simp [hmain]),
      by simp [hmain]⟩
  · obtain ⟨hmain, hhandle⟩ := hwait
    exact ⟨hH.daemon _ (Or.inr hhandle), hI.control.crew.not_running (by simp [hmain]),
      by simp [hmain]⟩
  · obtain ⟨hmain, hhandle⟩ := hwait
    have hrelease := (hI.control.stopping (by rw [hmain]; rfl)).1
    exact ⟨hH.remote _ hhandle, hH.flag hmain, by simp [hrelease]⟩
  · exact hwait.elim

end handles

/-! ## Section 5: No thread is stuck -/

section stuck
variable {s : State} {t : Caller} {k : ℕ}

/-- Inside a call of the service the thread makes a step of it, or has returned. -/
theorem inside_enabled (hin : s.isInside t) :
    s.returned t ∨ ∃ a s', owner (.serve a) = some t ∧ Step s (.serve a) s' := by
  by_cases hidle : s.remote.pc t = .idle
  · left
    unfold State.returned
    rw [hidle]
  · right
    obtain ⟨a, r, ha, hr⟩ := call_enabled hidle
    refine ⟨a, { s with remote := r }, congrArg some (insider_some ha).1, ?_⟩
    have hany : (insider a).any s.isInside := by
      rw [ha]
      exact hin
    simp only [Step, Service.step, hany, if_true, State.serve, hr, Option.map_some]

/-- A thread of the daemon that has not ended makes a step. -/
theorem thread_enabled (hI : Inv s) {u : Thread} (hu : s.daemon.threads[k]? = some u)
    (hpc : u.pc ≠ .done) : ∃ a s', owner a = some (.write k) ∧ Step s a s' := by
  obtain ⟨d, hd⟩ : ∃ d, Daemon.step s.daemon (.thread k) = some d := by
    simp only [Daemon.step, hu, Thread.step]
    cases h : u.pc with
    | done => exact absurd h hpc
    | _ => exact ⟨_, rfl⟩
  by_cases hbody : s.leavesBody k
  · cases hw : s.write k with
    | before =>
      refine ⟨.daemon (.thread k), { s with daemon := d }, rfl, ?_⟩
      simp only [Step, Service.step, daemonStep, hbody, if_true, hw, State.lift]
      exact Option.map_eq_some_iff.mpr ⟨d, hd, rfl⟩
    | call entry =>
      have hidle : s.remote.pc (.write k) = .idle := by
        apply hI.outside
        simp only [State.isInside, hw]
      obtain ⟨r, hr⟩ : ∃ r, s.remote.next (.broadcast (.write k) (some entry)) = some r := by
        simp only [Remote.System.next, hidle]
        exact ⟨_, rfl⟩
      refine ⟨.broadcast k, { s.setWrite k .inside with remote := r }, rfl, ?_⟩
      simp only [Step, Service.step, hw, State.serve]
      exact Option.map_eq_some_iff.mpr ⟨r, hr, rfl⟩
    | inside =>
      have hin : s.isInside (.write k) := by simp only [State.isInside, hw]
      rcases inside_enabled hin with hret | ⟨a, s', ha, hstep⟩
      · refine ⟨.leaveBroadcast k, s.setWrite k .after, rfl, ?_⟩
        exact if_pos ⟨hin, hret⟩
      · exact ⟨.serve a, s', ha, hstep⟩
    | after =>
      refine ⟨.daemon (.thread k), { s.setWrite k .before with daemon := d }, rfl, ?_⟩
      simp only [Step, Service.step, daemonStep, hbody, if_true, hw, State.lift]
      exact Option.map_eq_some_iff.mpr ⟨d, hd, rfl⟩
  · refine ⟨.daemon (.thread k), { s with daemon := d }, rfl, ?_⟩
    simp only [Step, Service.step, daemonStep]
    rw [if_neg hbody]
    exact Option.map_eq_some_iff.mpr ⟨d, hd, rfl⟩

theorem joinable_or_enabled (hI : Inv s) (hk : k < s.daemon.threads.length) :
    s.daemon.joinable (some k) ∨ ∃ a s', owner a = some (.write k) ∧ Step s a s' := by
  have hu := List.getElem?_eq_getElem hk
  by_cases hpc : (s.daemon.threads[k]).pc = .done
  · left
    simp [Daemon.State.joinable, hu, hpc]
  · exact Or.inr (thread_enabled hI hu hpc)

/-- A remote service thread that has not ended makes a step. -/
theorem acceptor_enabled (hI : Inv s) {pc : AcceptPc} (hk : s.acceptors[k]? = some pc)
    (hpc : pc ≠ .done) : ∃ a s', owner a = some (.remote k) ∧ Step s a s' := by
  cases pc with
  | test => exact ⟨.acceptTest k, _, rfl, if_pos hk⟩
  | call =>
    have hidle : s.remote.pc (.remote k) = .idle := by
      apply hI.outside
      rw [← Bool.not_eq_true, isInside_remote, hk]
      simp
    obtain ⟨r, hr⟩ : ∃ r, s.remote.next (.accept (.remote k)) = some r := by
      simp only [Remote.System.next, hidle]
      exact ⟨_, rfl⟩
    refine ⟨.accept k, { s.setAcceptor k .inside with remote := r }, rfl, ?_⟩
    simp only [Step, Service.step, State.serve]
    rw [if_pos hk]
    exact Option.map_eq_some_iff.mpr ⟨r, hr, rfl⟩
  | inside =>
    have hin : s.isInside (.remote k) := isInside_remote.mpr hk
    rcases inside_enabled hin with hret | ⟨a, s', ha, hstep⟩
    · exact ⟨.leaveAccept k, s.setAcceptor k .test, rfl, if_pos ⟨hin, hret⟩⟩
    · exact ⟨.serve a, s', ha, hstep⟩
  | done => exact absurd rfl hpc

end stuck

/-! ## Section 6: The joins -/

section joins
variable {s s' : State} {t : Caller} {a : Act}

/-- A thread that the main thread waits for makes a step, or is joined. -/
theorem join_enabled (hI : Inv s) (hH : Handles s) (hwait : s.Waits t a) :
    (∃ b s', owner b = some t ∧ Step s b s') ∨ ∃ s', Step s a s' := by
  have hhas := (waits_spec hI hH hwait).1
  unfold State.Waits at hwait
  split at hwait
  · obtain ⟨hmain, hhandle⟩ := hwait
    rcases joinable_or_enabled hI hhas with hjoin | henabled
    · right
      refine ⟨{ s with daemon := { s.daemon with main := .joinWrite, recvThread := none } }, ?_⟩
      simp [Step, Service.step, daemonStep, State.lift, Daemon.step, hmain, hhandle, hjoin]
    · exact Or.inl henabled
  · obtain ⟨hmain, hhandle⟩ := hwait
    rcases joinable_or_enabled hI hhas with hjoin | henabled
    · right
      refine ⟨{ s with daemon := { s.daemon with main := .release, writeThread := none } }, ?_⟩
      simp [Step, Service.step, daemonStep, State.lift, Daemon.step, hmain, hhandle, hjoin]
    · exact Or.inl henabled
  · next k =>
    obtain ⟨hmain, hhandle⟩ := hwait
    have hk := List.getElem?_eq_getElem (hhas : k < s.acceptors.length)
    by_cases hpc : s.acceptors[k] = .done
    · right
      refine ⟨{ s with main := .deinit, remoteThread := none }, ?_⟩
      simp [Step, Service.step, hmain, hhandle, hk, hpc]
    · exact Or.inl (acceptor_enabled hI hk hpc)
  · exact hwait.elim

/-- While the main thread waits, every step of the thread leaves it fewer, and no other step
    leaves it more. -/
theorem wait_step (hI : Inv s) (hH : Handles s) (hwait : s.Waits t a) {b : Act} (h : Step s b s') :
    s'.left t + (if owner b = some t then 1 else 0) ≤ s.left t := by
  obtain ⟨hhas, hcleared, hmain⟩ := waits_spec hI hH hwait
  split
  · next hown => exact left_own hI hcleared h hown
  · next hown => exact (left_other hI hmain hhas h hown).le

/-- What is used of the runs of the daemon. -/
structure Waitable (s : State) : Prop where
  inv     : Inv s
  handles : Handles s
  sized   : ∀ t, Sized (s.remote.pc t)

theorem Waitable.step (hW : Waitable s) {b : Act} (h : Step s b s') : Waitable s' := by
  refine ⟨hW.inv.step h, hW.handles.step h, ?_⟩
  rcases step_remote h with hsame | ⟨c, hc⟩
  · rw [hsame]
    exact hW.sized
  · exact sized_step hc hW.sized

theorem waitable_of_run {acts : List Act} (hrun : Steps Step State.initial acts s) : Waitable s :=
  hrun.invariant (fun _ _ _ hstep hW => hW.step hstep)
    ⟨inv_initial, handles_initial, fun _ => trivial⟩

end joins

/-- The daemon is stopped while the write thread is inside `Broadcast`. -/
def stopRun : List Act :=
  sendRun ++ [.daemon .callDeinit, .daemon (.thread 0), .daemon (.thread 0), .daemon (.thread 0),
    .daemon .joinRecv]

@[irreducible] def stopping : State :=
  (exec step State.initial stopRun).get (by decide +kernel)

theorem stopping_run : Steps Step State.initial stopRun stopping := by
  unfold stopping
  exact steps_of_exec (fun _ _ _ h => h) (Option.some_get (by decide +kernel)).symm

@[irreducible] def relocked : State :=
  (step stopping (.serve (.relock (.write 1)))).get (by decide +kernel)

end SiLog.Daemon.Service
