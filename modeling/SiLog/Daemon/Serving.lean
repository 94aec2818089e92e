import SiLog.Daemon.Service

/-! # The daemon keeps to the rules of its remote service

    In every run of the daemon at most one thread is inside `Broadcast`, and the
    service is shut down only when no other thread is inside a call of it.
    The reasons are in the order of the code: the write thread calls
    `SilogRemoteBroadcast` only while `g_remoteEnabled` is set, which is stored
    after `SilogRemoteInit` and cleared after the write thread and the remote
    service thread were joined; and a new write thread is created only after
    the last one was joined.  So the two races of `SiLog.Remote.Races` do not
    happen here.
-/

open Lts

namespace SiLog.Daemon.Service

/-! ## Section 1: The threads of the daemon -/

/-- Where a write thread may be alive. -/
def writing : MainPc → Bool
  | .remoteInit | .storeRunning | .up | .joinRecv | .joinWrite => true
  | _ => false

/-- Where the service may be enabled. -/
def enabling : MainPc → Bool
  | .storeRunning | .up | .joinRecv | .joinWrite | .release => true
  | _ => false

/-- The flag is set exactly while the daemon is up, and the only write thread that has
    not ended is the one of the handle. -/
structure Crew (s : Daemon.State) : Prop where
  flag    : s.running ↔ s.main = .up
  writer  : ∀ k t, s.threads[k]? = some t → t.role = .write → t.pc ≠ .done →
    s.writeThread = some k ∧ writing s.main
  enabled : s.remoteEnabled → enabling s.main

section crew
variable {s s' : Daemon.State}

theorem Thread.step_role {t t' : Thread} {running : Bool} (h : t.step running = some t') :
    t'.role = t.role ∧ t.pc ≠ .done := by
  unfold Thread.step at h
  split at h
  · next hpc => cases h; exact ⟨rfl, by rw [hpc]; simp⟩
  · next hpc => cases h; exact ⟨rfl, by rw [hpc]; simp⟩
  · next hpc => cases h; exact ⟨rfl, by rw [hpc]; simp⟩
  · next hpc => cases h; exact ⟨rfl, by rw [hpc]; simp⟩
  · cases h

/-- No write thread is alive where none may be. -/
theorem Crew.none_alive (hC : Crew s) (hmain : writing s.main = false) {k : ℕ} {t : Thread}
    (ht : s.threads[k]? = some t) (hrole : t.role = .write) : t.pc = .done := by
  by_contra hpc
  have hw := (hC.writer k t ht hrole hpc).2
  rw [hmain] at hw
  cases hw

/-- A step of the main thread that leaves the threads and their handle. -/
theorem Crew.main (hC : Crew s) (hflag : s'.running ↔ s'.main = .up)
    (hthreads : s'.threads = s.threads) (hhandle : s'.writeThread = s.writeThread)
    (hwriting : writing s.main → writing s'.main)
    (henabled : s'.remoteEnabled → enabling s'.main) : Crew s' := by
  refine ⟨hflag, ?_, henabled⟩
  intro k t ht hrole hpc
  rw [hthreads] at ht
  obtain ⟨hk, hw⟩ := hC.writer k t ht hrole hpc
  exact ⟨hhandle.trans hk, hwriting hw⟩

/-- A step of the main thread where no write thread is alive before. -/
theorem Crew.idle (hC : Crew s) (hmain : writing s.main = false) (hthreads : s'.threads = s.threads)
    (hflag : s'.running ↔ s'.main = .up) (henabled : s'.remoteEnabled → enabling s'.main) :
    Crew s' := by
  refine ⟨hflag, ?_, henabled⟩
  intro k t ht hrole hpc
  rw [hthreads] at ht
  exact absurd (hC.none_alive hmain ht hrole) hpc

theorem Crew.not_running (hC : Crew s) (hmain : s.main ≠ .up) : s.running = false := by
  by_contra h
  exact hmain (hC.flag.mp (by simpa using h))

theorem Crew.not_enabled (hC : Crew s) (hmain : enabling s.main = false) :
    s.remoteEnabled = false := by
  by_contra h
  have he := hC.enabled (by simpa using h)
  rw [hmain] at he
  cases he

/-- A step of thread `k`. -/
theorem Crew.thread (hC : Crew s) {k : ℕ} {t t' : Thread} (hk : s.threads[k]? = some t)
    (hstep : t.step s.running = some t') : Crew { s with threads := s.threads.set k t' } := by
  obtain ⟨hrole', hpc'⟩ := Thread.step_role hstep
  refine ⟨hC.flag, ?_, hC.enabled⟩
  intro j u hu hrole hpc
  by_cases hj : j = k
  · subst hj
    obtain ⟨hlt, _⟩ := List.getElem?_eq_some_iff.mp hk
    have heq : (s.threads.set j t')[j]? = some t' := List.getElem?_set_self hlt
    rw [heq] at hu
    rw [← Option.some.inj hu, hrole'] at hrole
    exact hC.writer j t hk hrole hpc'
  · have heq : (s.threads.set k t')[j]? = s.threads[j]? := List.getElem?_set_ne (Ne.symm hj)
    rw [heq] at hu
    exact hC.writer j u hu hrole hpc

/-- The last thread of the list is the new one. -/
theorem getElem?_concat_cases {l : List Thread} {t u : Thread} {k : ℕ}
    (h : (l ++ [t])[k]? = some u) : l[k]? = some u ∨ (k = l.length ∧ u = t) := by
  by_cases hk : k < l.length
  · rw [List.getElem?_append_left hk] at h
    exact Or.inl h
  · rw [List.getElem?_append_right (not_lt.mp hk)] at h
    obtain ⟨hlt, hu⟩ := List.getElem?_eq_some_iff.mp h
    have hzero : k - l.length = 0 := by
      rw [List.length_singleton] at hlt
      omega
    refine Or.inr ⟨by omega, ?_⟩
    simpa [hzero] using hu.symm

theorem Crew.step {a : Daemon.Act} (hC : Crew s) (hstep : Daemon.Step s a s') : Crew s' := by
  unfold Daemon.Step Daemon.step at hstep
  split at hstep
  · -- `callInit` before a start
    next hmain =>
    have hrun := hC.not_running (by rw [hmain]; simp)
    have hoff := hC.not_enabled (by rw [hmain]; rfl)
    rw [if_neg (by simp [hrun])] at hstep
    cases hstep
    exact hC.idle (by rw [hmain]; rfl) rfl (by simp [hrun]) (by simp [hoff])
  · -- `callInit` while up
    next hmain =>
    rw [if_pos (hC.flag.mpr hmain)] at hstep
    cases hstep
    exact hC.main (iff_of_true (hC.flag.mpr hmain) rfl) rfl rfl (fun _ => rfl) (fun _ => rfl)
  · next hmain =>
    have hrun := hC.not_running (by rw [hmain]; simp)
    have hoff := hC.not_enabled (by rw [hmain]; rfl)
    split at hstep <;> cases hstep <;>
      exact hC.idle (by rw [hmain]; rfl) rfl (by simp [State.failInit, hrun])
        (by simp [State.failInit, hoff])
  · next hmain =>
    have hrun := hC.not_running (by rw [hmain]; simp)
    have hoff := hC.not_enabled (by rw [hmain]; rfl)
    split at hstep <;> cases hstep <;>
      exact hC.idle (by rw [hmain]; rfl) rfl (by simp [State.failInit, hrun])
        (by simp [State.failInit, hoff])
  · -- `createRecv`: the new thread is no write thread
    next hmain =>
    have hrun := hC.not_running (by rw [hmain]; simp)
    have hoff := hC.not_enabled (by rw [hmain]; rfl)
    split at hstep
    · cases hstep
      refine ⟨by simp [hrun], ?_, by simp [hoff]⟩
      intro k t ht hrole hpc
      rcases getElem?_concat_cases ht with ht | ⟨_, rfl⟩
      · exact absurd (hC.none_alive (by rw [hmain]; rfl) ht hrole) hpc
      · cases hrole
    · cases hstep
      exact hC.idle (by rw [hmain]; rfl) rfl (by simp [State.failInit, hrun])
        (by simp [State.failInit, hoff])
  · -- `createWrite`: the new thread is the one of the handle, and no other is alive
    next hmain =>
    have hrun := hC.not_running (by rw [hmain]; simp)
    have hoff := hC.not_enabled (by rw [hmain]; rfl)
    split at hstep
    · cases hstep
      refine ⟨by simp [hrun], ?_, by simp [hoff]⟩
      intro k t ht hrole hpc
      rcases getElem?_concat_cases ht with ht | ⟨rfl, _⟩
      · exact absurd (hC.none_alive (by rw [hmain]; rfl) ht hrole) hpc
      · exact ⟨rfl, rfl⟩
    · cases hstep
      exact hC.idle (by rw [hmain]; rfl) rfl (by simp [State.failInit, hrun])
        (by simp [State.failInit, hoff])
  · -- `initRemote`
    next hmain =>
    have hrun := hC.not_running (by rw [hmain]; simp)
    cases hstep
    exact hC.main (by simp [hrun]) rfl rfl (fun _ => rfl) (fun _ => rfl)
  · -- `storeRunning`
    next hmain =>
    cases hstep
    exact hC.main (by simp) rfl rfl (fun _ => rfl) (fun _ => rfl)
  · -- `callDeinit` before a start and while up
    next hmain =>
    cases hstep
    exact hC.main (by simp) rfl rfl (fun _ => rfl) (fun _ => rfl)
  · next hmain =>
    cases hstep
    exact hC.main (by simp) rfl rfl (fun _ => rfl) (fun _ => rfl)
  · -- `joinRecv`
    next hmain =>
    have hrun := hC.not_running (by rw [hmain]; simp)
    split at hstep <;> cases hstep
    exact hC.main (by simp [hrun]) rfl rfl (fun _ => rfl) (fun _ => rfl)
  · -- `joinWrite`: the thread of the handle has ended
    next hmain =>
    have hrun := hC.not_running (by rw [hmain]; simp)
    split at hstep
    · next hjoin =>
      cases hstep
      refine ⟨by simp [hrun], ?_, fun _ => rfl⟩
      intro k t ht hrole hpc
      have hk := (hC.writer k t ht hrole hpc).1
      simp only [Daemon.State.joinable, hk, ht, Option.map_some, beq_iff_eq,
        Option.some.injEq] at hjoin
      exact absurd hjoin hpc
    · cases hstep
  · -- `release`
    next hmain =>
    have hrun := hC.not_running (by rw [hmain]; simp)
    cases hstep
    exact hC.idle (by rw [hmain]; rfl) rfl (by simp [hrun]) (by simp)
  · next k _ =>
    split at hstep
    · next t hk =>
      obtain ⟨t', ht', rfl⟩ := Option.map_eq_some_iff.mp hstep
      exact hC.thread hk ht'
    · cases hstep
  · cases hstep

/-- The step of a thread changes nothing but that thread. -/
theorem step_thread {k : ℕ} (h : Daemon.step s (.thread k) = some s') :
    ∃ t t', s.threads[k]? = some t ∧ t.step s.running = some t' ∧
      s' = { s with threads := s.threads.set k t' } := by
  simp only [Daemon.step] at h
  split at h
  · next t hk =>
    obtain ⟨t', ht', rfl⟩ := Option.map_eq_some_iff.mp h
    exact ⟨t, t', hk, ht', rfl⟩
  · cases h

theorem step_release (h : Daemon.step s .release = some s') :
    s.main = .release ∧ s'.main = .stopped ∧ s'.remoteEnabled = false ∧ s'.threads = s.threads := by
  cases hmain : s.main with
  | release =>
    simp only [Daemon.step, hmain, Option.some.injEq] at h
    subst h
    exact ⟨rfl, rfl, rfl, rfl⟩
  | _ => simp [Daemon.step, hmain] at h

theorem step_initRemote {ret : ErrorCode} (h : Daemon.step s (.initRemote ret) = some s') :
    s.main = .remoteInit ∧ s'.main = .storeRunning ∧
      s'.remoteEnabled = (s.remoteEnabled || ret == .ok) ∧ s'.threads = s.threads := by
  cases hmain : s.main with
  | remoteInit =>
    simp only [Daemon.step, hmain, Option.some.injEq] at h
    subst h
    exact ⟨rfl, rfl, rfl, rfl⟩
  | _ => simp [Daemon.step, hmain] at h

/-- The step is one of the main thread and not about the service. -/
def isPlain : Daemon.Act → Bool
  | .initRemote _ | .release | .thread _ => false
  | _ => true

/-- The other steps of the main thread keep the threads and leave the service alone. -/
theorem step_plain {a : Daemon.Act} (hplain : isPlain a) (h : Daemon.step s a = some s') :
    s.main ≠ .remoteInit ∧ s.main ≠ .release ∧ s'.remoteEnabled = s.remoteEnabled ∧
    ∀ (k : ℕ) (t : Thread), s.threads[k]? = some t → s'.threads[k]? = some t := by
  have hsame : ∀ {d : Daemon.State}, d.threads = s.threads →
      ∀ (k : ℕ) (t : Thread), s.threads[k]? = some t → d.threads[k]? = some t := by
    intro d hd k t ht
    rw [hd]
    exact ht
  have hadd : ∀ (u : Thread) (k : ℕ) (t : Thread), s.threads[k]? = some t →
      (s.threads ++ [u])[k]? = some t := by
    intro u k t ht
    obtain ⟨hlt, _⟩ := List.getElem?_eq_some_iff.mp ht
    rw [List.getElem?_append_left hlt]
    exact ht
  unfold Daemon.step at h
  split at h
  · next hmain =>
    split at h <;> cases h <;> exact ⟨by simp [hmain], by simp [hmain], rfl, hsame rfl⟩
  · next hmain =>
    split at h <;> cases h <;> exact ⟨by simp [hmain], by simp [hmain], rfl, hsame rfl⟩
  · next hmain =>
    split at h <;> cases h <;> exact ⟨by simp [hmain], by simp [hmain], rfl, hsame rfl⟩
  · next hmain =>
    split at h <;> cases h <;> exact ⟨by simp [hmain], by simp [hmain], rfl, hsame rfl⟩
  · next hmain =>
    split at h <;> cases h
    · exact ⟨by simp [hmain], by simp [hmain], rfl, hadd _⟩
    · exact ⟨by simp [hmain], by simp [hmain], rfl, hsame rfl⟩
  · next hmain =>
    split at h <;> cases h
    · exact ⟨by simp [hmain], by simp [hmain], rfl, hadd _⟩
    · exact ⟨by simp [hmain], by simp [hmain], rfl, hsame rfl⟩
  · cases hplain
  · next hmain => cases h; exact ⟨by simp [hmain], by simp [hmain], rfl, hsame rfl⟩
  · next hmain => cases h; exact ⟨by simp [hmain], by simp [hmain], rfl, hsame rfl⟩
  · next hmain => cases h; exact ⟨by simp [hmain], by simp [hmain], rfl, hsame rfl⟩
  · next hmain => split at h <;> cases h; exact ⟨by simp [hmain], by simp [hmain], rfl, hsame rfl⟩
  · next hmain => split at h <;> cases h; exact ⟨by simp [hmain], by simp [hmain], rfl, hsame rfl⟩
  · cases hplain
  · cases hplain
  · cases h

end crew

/-! ## Section 2: The invariant -/

/-- In `SilogDaemonRemoteInit`. -/
def RemotePc.starting : RemotePc → Bool
  | .publish | .storeRunning | .create | .undo | .enable => true
  | _ => false

/-- In `SilogDaemonRemoteDeinit`. -/
def RemotePc.stopping : RemotePc → Bool
  | .join | .deinit | .disable => true
  | _ => false

/-- The write thread has found the service enabled and has not returned from it. -/
def WritePc.calling : WritePc → Bool
  | .call _ | .inside => true
  | _ => false

/-- What the service is like. -/
inductive Mode where
  | down
  /-- All but `isInit` is set up. -/
  | publishing
  | up

def State.mode (s : State) : Mode :=
  match s.main with
  | .publish => .publishing
  | .disable => .down
  | .out => if s.daemon.remoteEnabled then .up else .down
  | _ => .up

/-- The books of the service balance, and a call of `Broadcast` finds its slot. -/
def ServiceOk (remote : Remote.System Caller) : Mode → Prop
  | .down => remote.server.mgr.isInit = false ∧ Remote.Accounts remote.server
  | .publishing => Remote.Accounts (setInit remote.server true)
  | .up => Remote.LiveAccounts remote ∧ ∀ t, Remote.KeepsSlot remote.server (remote.pc t)

/-- Which threads are where while the service is up or down. -/
structure Control (s : State) : Prop where
  crew      : Crew s.daemon
  starting  : s.main.starting → s.daemon.main = .remoteInit ∧ s.daemon.remoteEnabled = false
  stopping  : s.main.stopping → s.daemon.main = .release ∧ s.daemon.remoteEnabled
  writers   : ∀ k, (s.write k).calling →
    s.daemon.threads[k]? = some { role := .write, pc := .body } ∧ s.daemon.remoteEnabled
  acceptors : ∀ k pc, s.acceptors[k]? = some pc → pc ≠ .done → s.remoteThread = some k ∧
    (s.main = .enable ∨ (s.daemon.remoteEnabled ∧ (s.main = .out ∨ s.main = .join)))

structure Inv (s : State) : Prop where
  control : Control s
  outside : ∀ t, s.isInside t = false → s.remote.pc t = .idle
  roles   : ∀ k, (s.remote.pc (.remote k)).accepts
  service : ServiceOk s.remote s.mode

section control
variable {s s' : State}

theorem Control.writers_outside (hC : Control s)
    (h : s.daemon.remoteEnabled = false ∨ writing s.daemon.main = false) (k : ℕ) :
    (s.write k).calling = false := by
  by_contra hcall
  obtain ⟨hbody, henabled⟩ := hC.writers k (by simpa using hcall)
  rcases h with h | h
  · rw [h] at henabled
    cases henabled
  · have hw := (hC.crew.writer k _ hbody rfl (by simp)).2
    rw [h] at hw
    cases hw

theorem isInside_write (hk : (s.write k).calling = false) : s.isInside (.write k) = false := by
  unfold State.isInside
  dsimp only
  split
  · next hpc =>
    rw [hpc] at hk
    cases hk
  · rfl

theorem calling_of_isInside {k : ℕ} (h : s.isInside (.write k)) : (s.write k).calling := by
  by_contra hno
  rw [isInside_write (by simpa using hno)] at h
  cases h

theorem isInside_remote {k : ℕ} : s.isInside (.remote k) ↔ s.acceptors[k]? = some .inside := by
  simp [State.isInside]

/-- A thread inside a call finds the service up. -/
theorem Control.up_of_inside (hC : Control s) {t : Caller} (h : s.isInside t) : s.mode = .up := by
  cases t with
  | main => cases h
  | write k =>
    obtain ⟨hbody, henabled⟩ := hC.writers k (calling_of_isInside h)
    have hwriting := (hC.crew.writer k _ hbody rfl (by simp)).2
    unfold State.mode
    split
    · next hmain =>
      have hoff := (hC.starting (by rw [hmain]; rfl)).2
      rw [hoff] at henabled
      cases henabled
    · next hmain =>
      rw [(hC.stopping (by rw [hmain]; rfl)).1] at hwriting
      cases hwriting
    · rw [if_pos henabled]
    · rfl
  | remote k =>
    obtain ⟨_, hmain⟩ := hC.acceptors k _ (isInside_remote.mp h) (by simp)
    unfold State.mode
    rcases hmain with hmain | ⟨henabled, hmain | hmain⟩ <;> simp [*]

/-- Where neither a write thread nor a remote service thread is inside a call. -/
theorem Inv.quiet (hI : Inv s)
    (hw : s.daemon.remoteEnabled = false ∨ writing s.daemon.main = false)
    (ha : ∀ k : ℕ, s.acceptors[k]? ≠ some AcceptPc.inside) (t : Caller) : s.remote.pc t = .idle := by
  apply hI.outside
  cases t with
  | main => rfl
  | write k => exact isInside_write (hI.control.writers_outside hw k)
  | remote k =>
    rw [← Bool.not_eq_true, isInside_remote]
    exact ha k

/-- Only the threads of a start that is complete are inside `Accept`. -/
theorem Control.acceptors_outside (hC : Control s) (henable : s.main ≠ .enable)
    (hout : s.daemon.remoteEnabled → s.main ≠ .out ∧ s.main ≠ .join) {k : ℕ} {pc : AcceptPc}
    (hk : s.acceptors[k]? = some pc) : pc = .done := by
  by_contra hpc
  obtain ⟨_, hmain | ⟨henabled, hmain⟩⟩ := hC.acceptors k pc hk hpc
  · exact henable hmain
  · obtain ⟨hno, hno'⟩ := hout henabled
    exact hmain.elim hno hno'

/-- A step that leaves the service and its mode alone. -/
theorem Inv.congr (hI : Inv s) (hcontrol : Control s') (hremote : s'.remote = s.remote)
    (hmode : s'.mode = s.mode)
    (houtside : ∀ t, s'.isInside t = false → s.remote.pc t = .idle) : Inv s' := by
  refine ⟨hcontrol, ?_, ?_, ?_⟩
  · rw [hremote]
    exact houtside
  · rw [hremote]
    exact hI.roles
  · rw [hremote, hmode]
    exact hI.service

end control

/-! ## Section 3: The threads -/

section threads
variable {s s' : State} {k : ℕ}

/-- A write thread goes on. -/
theorem Inv.setWrite (hI : Inv s) {pc : WritePc}
    (hcall : pc.calling →
      s.daemon.threads[k]? = some { role := .write, pc := .body } ∧ s.daemon.remoteEnabled)
    (hidle : s.isInside (.write k) → s.remote.pc (.write k) = .idle) : Inv (s.setWrite k pc) := by
  have hC := hI.control
  refine hI.congr ⟨hC.crew, hC.starting, hC.stopping, ?_, hC.acceptors⟩ rfl rfl ?_
  · intro j hj
    by_cases hjk : j = k
    · subst hjk
      simp only [State.setWrite, Function.update_self] at hj
      exact hcall hj
    · simp only [State.setWrite, Function.update_of_ne hjk] at hj
      exact hC.writers j hj
  · intro t ht
    by_cases htk : t = .write k
    · subst htk
      cases hin : s.isInside (.write k) with
      | true => exact hidle hin
      | false => exact hI.outside _ hin
    · apply hI.outside
      cases t with
      | main => rfl
      | write j =>
        have hjk : j ≠ k := by
          rintro rfl
          exact htk rfl
        simpa only [State.isInside, State.setWrite, Function.update_of_ne hjk] using ht
      | remote j => exact ht

/-- A remote service thread that has not ended goes on. -/
theorem Inv.setAcceptor (hI : Inv s) {old pc : AcceptPc} (hk : s.acceptors[k]? = some old)
    (hold : old ≠ .done) (hidle : s.isInside (.remote k) → s.remote.pc (.remote k) = .idle) :
    Inv (s.setAcceptor k pc) := by
  have hC := hI.control
  have hother : ∀ j : ℕ, j ≠ k → (s.acceptors.set k pc)[j]? = s.acceptors[j]? :=
    fun j hj => List.getElem?_set_ne (Ne.symm hj)
  refine hI.congr ⟨hC.crew, hC.starting, hC.stopping, hC.writers, ?_⟩ rfl rfl ?_
  · intro j pc' hj hpc'
    by_cases hjk : j = k
    · subst hjk
      exact hC.acceptors j old hk hold
    · apply hC.acceptors j pc' _ hpc'
      rw [← hother j hjk]
      exact hj
  · intro t ht
    by_cases htk : t = .remote k
    · subst htk
      cases hin : s.isInside (.remote k) with
      | true => exact hidle hin
      | false => exact hI.outside _ hin
    · apply hI.outside
      cases t with
      | main => rfl
      | write j => exact ht
      | remote j =>
        have hjk : j ≠ k := by
          rintro rfl
          exact htk rfl
        rw [← Bool.not_eq_true, isInside_remote] at ht ⊢
        rw [← hother j hjk]
        exact ht

/-- A step of a thread of the daemon that is not inside `Broadcast`. -/
theorem Inv.thread (hI : Inv s) {d : Daemon.State}
    (hout : s.leavesBody k → (s.write k).calling = false)
    (hd : Daemon.step s.daemon (.thread k) = some d) : Inv { s with daemon := d } := by
  have hC := hI.control
  have hcrew := hC.crew.step hd
  obtain ⟨t, t', ht, _, rfl⟩ := step_thread hd
  refine hI.congr ⟨hcrew, hC.starting, hC.stopping, ?_, hC.acceptors⟩ rfl rfl hI.outside
  intro j hj
  obtain ⟨hbody, henabled⟩ := hC.writers j hj
  refine ⟨?_, henabled⟩
  have hjk : j ≠ k := by
    rintro rfl
    have hno := hout (by simp [State.leavesBody, hbody])
    have hyes : (s.write j).calling = true := hj
    rw [hno] at hyes
    cases hyes
  show (s.daemon.threads.set k t')[j]? = _
  rw [List.getElem?_set_ne (Ne.symm hjk)]
  exact hbody

/-- A step of the main thread that is not about the service. -/
theorem Inv.plain (hI : Inv s) {a : Daemon.Act} (hplain : isPlain a) (h : s.lift a = some s') :
    Inv s' := by
  have hC := hI.control
  obtain ⟨d, hd, rfl⟩ := Option.map_eq_some_iff.mp h
  obtain ⟨hinit, hrelease, henabled, hthreads⟩ := step_plain hplain hd
  refine hI.congr ⟨hC.crew.step hd, ?_, ?_, ?_, ?_⟩ rfl ?_ hI.outside
  · intro hs
    exact absurd (hC.starting hs).1 hinit
  · intro hs
    exact absurd (hC.stopping hs).1 hrelease
  · intro j hj
    obtain ⟨hbody, he⟩ := hC.writers j hj
    refine ⟨hthreads _ _ hbody, ?_⟩
    show d.remoteEnabled
    rw [henabled]
    exact he
  · intro j pc hj hpc
    show _ ∧ (_ ∨ (d.remoteEnabled ∧ _))
    rw [henabled]
    exact hC.acceptors j pc hj hpc
  · simp only [State.mode, henabled]

/-- The service has stopped, or has failed to start: what is left of the call is a
    step of the daemon. -/
theorem Inv.down (hI : Inv s) {d : Daemon.State} {a : Daemon.Act} {r : Remote.System Caller}
    (hd : Daemon.step s.daemon a = some d) (henabled : d.remoteEnabled = false)
    (hr : r.server.mgr.isInit = false ∧ Remote.Accounts r.server) (hidle : ∀ t, r.pc t = .idle)
    (hw : s.daemon.remoteEnabled = false ∨ writing s.daemon.main = false)
    (ha : ∀ (j : ℕ) pc, s.acceptors[j]? = some pc → pc = .done) :
    Inv { s with daemon := d, main := .out, remote := r } := by
  have hC := hI.control
  refine ⟨⟨hC.crew.step hd, ?_, ?_, ?_, ?_⟩, fun t _ => hidle t, ?_, ?_⟩
  · intro hs
    cases hs
  · intro hs
    cases hs
  · intro j hj
    have hno := hC.writers_outside hw j
    have hyes : (s.write j).calling = true := hj
    rw [hno] at hyes
    cases hyes
  · intro j pc hj hpc
    exact absurd (ha j pc hj) hpc
  · intro j
    show (r.pc _).accepts
    rw [hidle]
    rfl
  · have hmode : ({ s with daemon := d, main := .out, remote := r } : State).mode = .down := by
      simp [State.mode, henabled]
    rw [hmode]
    exact hr

end threads

/-! ## Section 4: The service -/

section service
variable {s s' : State}

/-- Only the write thread of the handle broadcasts. -/
theorem Inv.oneBroadcaster (hI : Inv s) : Remote.OneBroadcaster s.remote := by
  have hwrite : ∀ t, (s.remote.pc t).remembers →
      ∃ k, t = .write k ∧ s.daemon.writeThread = some k := by
    intro t hrem
    have hin : s.isInside t := by
      by_contra hout
      rw [hI.outside t (by simpa using hout)] at hrem
      cases hrem
    cases t with
    | main => cases hin
    | write k =>
      obtain ⟨hbody, _⟩ := hI.control.writers k (calling_of_isInside hin)
      exact ⟨k, rfl, (hI.control.crew.writer k _ hbody rfl (by simp)).1⟩
    | remote k =>
      rw [Remote.not_remembers_of_accepts (hI.roles k)] at hrem
      cases hrem
  intro t t' ht ht'
  obtain ⟨k, rfl, hk⟩ := hwrite t ht
  obtain ⟨k', rfl, hk'⟩ := hwrite t' ht'
  rw [hk] at hk'
  rw [Option.some.inj hk']

/-- A step of a thread inside `Broadcast` or `Accept`. -/
theorem Inv.serve (hI : Inv s) {a : Remote.Act Caller} (hin : s.isInside a.thread)
    (hlive : a.isDeinit = false) (hrole : ∀ k entry, a ≠ .broadcast (.remote k) entry)
    (h : s.serve a = some s') : Inv s' := by
  obtain ⟨r, hr, rfl⟩ := Option.map_eq_some_iff.mp h
  have hstep : Remote.ThreadStep s.remote a r := hr
  have hservice := hI.service
  have hC := hI.control
  rw [hC.up_of_inside hin] at hservice
  obtain ⟨hL, hK⟩ := hservice
  refine ⟨⟨hC.crew, hC.starting, hC.stopping, hC.writers, hC.acceptors⟩, ?_, ?_, ?_⟩
  · intro t ht
    have hne : t ≠ a.thread := by
      rintro rfl
      have hout : s.isInside a.thread = false := ht
      rw [hin] at hout
      cases hout
    show r.pc t = _
    rw [Remote.step_pc_of_ne hstep hne]
    exact hI.outside t ht
  · intro k
    exact Remote.accepts_step hstep (hI.roles k) (hrole k)
  · have hmode : ({ s with remote := r } : State).mode = .up := hC.up_of_inside hin
    rw [hmode]
    exact ⟨hL.step hlive hstep, Remote.keepsSlot_step hK hL.flight hI.oneBroadcaster hlive hstep⟩

/-- `SilogRemoteDeinit` while no other thread is in a call. -/
theorem deinit_quiet {r r' : Remote.System Caller} (hL : Remote.LiveAccounts r)
    (hidle : ∀ t, r.pc t = .idle) (h : r.next (.deinit .main) = some r') :
    (r'.server.mgr.isInit = false ∧ Remote.Accounts r'.server) ∧ ∀ t, r'.pc t = .idle := by
  have hstep : Remote.ThreadStep r (.deinit .main) r' := h
  have hA := hL.accounts fun t => by rw [hidle t]; rfl
  obtain ⟨_, rfl⟩ := Remote.step_deinit hstep
  refine ⟨⟨(Remote.deinit_down hL.on).1, hA.deinit⟩, ?_⟩
  intro t
  by_cases ht : t = .main
  · rw [ht, Remote.move_pc_self]
  · rw [Remote.move_pc_of_ne _ _ _ ht]
    exact hidle t

/-- In `SilogDaemonRemoteInit` before the thread is created, and in
    `SilogDaemonRemoteDeinit` after it is joined, nobody else is in a call. -/
theorem Inv.quiet_between (hI : Inv s) (hmain : s.main.starting ∨ s.main.stopping)
    (henable : s.main ≠ .enable) (hjoin : s.main ≠ .join) :
    (∀ t, s.remote.pc t = .idle) ∧ ∀ (k : ℕ) pc, s.acceptors[k]? = some pc → pc = .done := by
  have hC := hI.control
  have hacc : ∀ (k : ℕ) pc, s.acceptors[k]? = some pc → pc = .done := by
    intro k pc hk
    apply hC.acceptors_outside henable _ hk
    intro _
    refine ⟨?_, hjoin⟩
    intro hout
    rw [hout] at hmain
    exact hmain.elim (fun h => by cases h) (fun h => by cases h)
  refine ⟨?_, hacc⟩
  apply hI.quiet
  · rcases hmain with h | h
    · exact Or.inl (hC.starting h).2
    · exact Or.inr (by rw [(hC.stopping h).1]; rfl)
  · intro k hk
    cases hacc k _ hk

/-- `SilogRemoteInit` runs. -/
theorem Inv.remoteInit (hI : Inv s) {env : Remote.InitEnv} (hdaemon : s.daemon.main = .remoteInit)
    (hmain : s.main = .out) (hfresh : freshSocket s.remote.server.kernel env)
    (h : remoteInitStep s env = some s') : Inv s' := by
  have hC := hI.control
  have hoff : s.daemon.remoteEnabled = false := hC.crew.not_enabled (by rw [hdaemon]; rfl)
  have hacc : ∀ (k : ℕ) pc, s.acceptors[k]? = some pc → pc = .done := by
    intro k pc hk
    apply hC.acceptors_outside (by rw [hmain]; simp) _ hk
    intro henabled
    rw [hoff] at henabled
    cases henabled
  have hidle : ∀ t, s.remote.pc t = .idle := hI.quiet (Or.inl hoff) fun k hk => by cases hacc k _ hk
  have hservice := hI.service
  have hmode : s.mode = .down := by simp [State.mode, hmain, hoff]
  rw [hmode] at hservice
  obtain ⟨hdown, hA⟩ := hservice
  have hA' := hA.init (some (Setup.remoteConfig config)) env (by
    intro fd hfd
    rw [freshSocket, hfd] at hfresh
    simpa using hfresh)
  unfold remoteInitStep at h
  rw [if_neg (by simp [hoff])] at h
  dsimp only at h
  have hexits := Remote.init_exits (some (Setup.remoteConfig config)) env hdown
  split at h
  · -- it fails; the daemon goes on without the service
    next hret =>
    obtain ⟨d, hd, rfl⟩ := Option.map_eq_some_iff.mp h
    obtain ⟨_, _, henabled, _⟩ := step_initRemote hd
    have hstays : d.remoteEnabled = false := by
      rw [henabled]
      simp [State.withServer, hoff, hret]
    have hinit : (Remote.silogRemoteInit s.remote.server (some (Setup.remoteConfig config)) env).2.mgr.isInit
        = false := by
      rcases hexits with ⟨_, h, _⟩ | ⟨fd, h, _⟩
      · exact h
      · exact absurd h hret
    exact hI.down (a := .initRemote _) hd hstays (r := { s.remote with server := _ })
      ⟨hinit, hA'⟩ hidle (Or.inl hoff) hacc
  · next hret =>
    rw [if_neg (by simp [hdown])] at h
    cases h
    have hinit : (Remote.silogRemoteInit s.remote.server (some (Setup.remoteConfig config)) env).2.mgr.isInit
        = true := by
      rcases hexits with ⟨h, _⟩ | ⟨fd, _, _, h, _⟩
      · exact absurd h hret
      · exact h
    refine ⟨⟨hC.crew, fun _ => ⟨hdaemon, hoff⟩, ?_, hC.writers, ?_⟩,
      fun t _ => hidle t, hI.roles, ?_⟩
    · intro hs
      cases hs
    · intro k pc hk hpc
      exact absurd (hacc k pc hk) hpc
    · have hsame : setInit (setInit (Remote.silogRemoteInit s.remote.server
          (some (Setup.remoteConfig config)) env).2 false) true =
          (Remote.silogRemoteInit s.remote.server (some (Setup.remoteConfig config)) env).2 := by
        simp only [setInit, ← hinit]
      show Remote.Accounts (setInit (setInit _ false) true)
      rw [hsame]
      exact hA'

/-- The store of `isInit` in `SilogRemoteInit`. -/
theorem Inv.publish (hI : Inv s) (hmain : s.main = .publish) :
    Inv { s.withServer (setInit s.remote.server true) with main := .storeRunning } := by
  have hC := hI.control
  obtain ⟨hidle, hacc⟩ := hI.quiet_between (Or.inl (by rw [hmain]; rfl)) (by rw [hmain]; simp)
    (by rw [hmain]; simp)
  have hservice := hI.service
  have hmode : s.mode = .publishing := by simp [State.mode, hmain]
  rw [hmode] at hservice
  refine ⟨⟨hC.crew, fun _ => hC.starting (by rw [hmain]; rfl), ?_, hC.writers, ?_⟩,
    hI.outside, hI.roles, ?_⟩
  · intro hs
    cases hs
  · intro k pc hk hpc
    exact absurd (hacc k pc hk) hpc
  · have hserver : Remote.Accounts (setInit s.remote.server true) := hservice
    constructor
    · apply Remote.Accounts.live hserver rfl
      intro t
      show Remote.inFlight (s.remote.pc t) = none
      rw [hidle]
      rfl
    · intro t
      show Remote.KeepsSlot _ (s.remote.pc t)
      rw [hidle]
      trivial

/-- `g_remoteRunning` is set, and the thread is created or not. -/
theorem Inv.storeRunning (hI : Inv s) (hmain : s.main = .storeRunning) :
    Inv { s with main := .create, remoteRunning := true } := by
  have hC := hI.control
  obtain ⟨_, hacc⟩ := hI.quiet_between (Or.inl (by rw [hmain]; rfl)) (by rw [hmain]; simp)
    (by rw [hmain]; simp)
  refine hI.congr ⟨hC.crew, fun _ => hC.starting (by rw [hmain]; rfl), ?_, hC.writers, ?_⟩ rfl ?_
    hI.outside
  · intro hs
    cases hs
  · intro k pc hk hpc
    exact absurd (hacc k pc hk) hpc
  · simp [State.mode, hmain]

theorem Inv.createRemote (hI : Inv s) (hmain : s.main = .create) :
    Inv { s with main := .enable, remoteThread := some s.acceptors.length
                 acceptors := s.acceptors ++ [.test] } ∧
    Inv { s with main := .undo } := by
  have hC := hI.control
  obtain ⟨_, hacc⟩ := hI.quiet_between (Or.inl (by rw [hmain]; rfl)) (by rw [hmain]; simp)
    (by rw [hmain]; simp)
  constructor
  · refine hI.congr ⟨hC.crew, fun _ => hC.starting (by rw [hmain]; rfl), ?_, hC.writers, ?_⟩ rfl ?_ ?_
    · intro hs
      cases hs
    · intro k pc hk hpc
      have hlast : k = s.acceptors.length := by
        by_contra hne
        obtain ⟨hlt, _⟩ := List.getElem?_eq_some_iff.mp hk
        rw [List.length_append, List.length_singleton] at hlt
        rw [List.getElem?_append_left (by omega)] at hk
        exact hpc (hacc k pc hk)
      exact ⟨congrArg some hlast.symm, Or.inl rfl⟩
    · simp [State.mode, hmain]
    · intro t ht
      apply hI.outside
      cases t with
      | main => rfl
      | write k => exact ht
      | remote k =>
        rw [← Bool.not_eq_true, isInside_remote]
        intro hk
        cases hacc k _ hk
  · refine hI.congr ⟨hC.crew, fun _ => hC.starting (by rw [hmain]; rfl), ?_, hC.writers, ?_⟩ rfl ?_
      hI.outside
    · intro hs
      cases hs
    · intro k pc hk hpc
      exact absurd (hacc k pc hk) hpc
    · simp [State.mode, hmain]

/-- The service is up where the main thread is about to call `SilogRemoteDeinit`. -/
theorem Inv.deinit (hI : Inv s) (hmain : s.main.starting ∨ s.main.stopping)
    (henable : s.main ≠ .enable) (hjoin : s.main ≠ .join) (hmode : s.mode = .up)
    {r : Remote.System Caller} (hr : s.remote.next (.deinit .main) = some r) :
    (r.server.mgr.isInit = false ∧ Remote.Accounts r.server) ∧ ∀ t, r.pc t = .idle := by
  obtain ⟨hidle, _⟩ := hI.quiet_between hmain henable hjoin
  have hservice := hI.service
  rw [hmode] at hservice
  exact deinit_quiet hservice.1 hidle hr

theorem Inv.undo (hI : Inv s) (hmain : s.main = .undo)
    (h : ((s.serve (.deinit .main)).bind fun s => s.finish .threadCreate) = some s') : Inv s' := by
  have hC := hI.control
  have hstart : s.main.starting := by
    rw [hmain]
    rfl
  obtain ⟨s₁, hserve, hfinish⟩ := Option.bind_eq_some_iff.mp h
  obtain ⟨r, hr, rfl⟩ := Option.map_eq_some_iff.mp hserve
  obtain ⟨d, hd, rfl⟩ := Option.map_eq_some_iff.mp hfinish
  obtain ⟨hdown, hidle⟩ := hI.deinit (Or.inl hstart) (by rw [hmain]; simp) (by rw [hmain]; simp)
    (by simp [State.mode, hmain]) hr
  obtain ⟨_, hacc⟩ := hI.quiet_between (Or.inl hstart) (by rw [hmain]; simp) (by rw [hmain]; simp)
  have hoff := (hC.starting hstart).2
  obtain ⟨_, _, henabled, _⟩ := step_initRemote hd
  have hstays : d.remoteEnabled = false := by
    rw [henabled]
    simp [hoff]
  exact hI.down hd hstays hdown hidle (Or.inl hoff) hacc

theorem Inv.enable (hI : Inv s) (hmain : s.main = .enable) (h : s.finish .ok = some s') : Inv s' := by
  have hC := hI.control
  have hoff := (hC.starting (by rw [hmain]; rfl)).2
  obtain ⟨d, hd, rfl⟩ := Option.map_eq_some_iff.mp h
  have hcrew := hC.crew.step hd
  obtain ⟨_, _, henabled, _⟩ := step_initRemote hd
  have hon : d.remoteEnabled = true := by
    rw [henabled]
    simp
  refine hI.congr ⟨hcrew, ?_, ?_, ?_, ?_⟩ rfl ?_ hI.outside
  · intro hs
    cases hs
  · intro hs
    cases hs
  · intro k hk
    have hno := hC.writers_outside (Or.inl hoff) k
    have hyes : (s.write k).calling = true := hk
    rw [hno] at hyes
    cases hyes
  · intro k pc hk hpc
    exact ⟨(hC.acceptors k pc hk hpc).1, Or.inr ⟨hon, Or.inl rfl⟩⟩
  · simp [State.mode, hmain, hon]

/-- `SilogDaemonRemoteDeinit` stops the thread and joins it. -/
theorem Inv.remoteDeinit (hI : Inv s) (hdaemon : s.daemon.main = .release) (hmain : s.main = .out)
    (hon : s.daemon.remoteEnabled) : Inv { s with main := .join, remoteRunning := false } := by
  have hC := hI.control
  refine hI.congr ⟨hC.crew, ?_, fun _ => ⟨hdaemon, hon⟩, hC.writers, ?_⟩ rfl ?_ hI.outside
  · intro hs
    cases hs
  · intro k pc hk hpc
    exact ⟨(hC.acceptors k pc hk hpc).1, Or.inr ⟨hon, Or.inr rfl⟩⟩
  · simp [State.mode, hmain, hon]

theorem Inv.joinRemote (hI : Inv s) (hmain : s.main = .join)
    (hjoin : s.remoteThread.all fun k => s.acceptors[k]? == some .done) :
    Inv { s with main := .deinit, remoteThread := none } := by
  have hC := hI.control
  -- the thread of the handle has ended, and no other was alive
  have hacc : ∀ (k : ℕ) pc, s.acceptors[k]? = some pc → pc = .done := by
    intro k pc hk
    by_contra hpc
    rw [(hC.acceptors k pc hk hpc).1] at hjoin
    simp only [Option.all_some, hk, beq_iff_eq, Option.some.injEq] at hjoin
    exact hpc hjoin
  refine hI.congr ⟨hC.crew, ?_, fun _ => hC.stopping (by rw [hmain]; rfl), hC.writers, ?_⟩ rfl ?_
    hI.outside
  · intro hs
    cases hs
  · intro k pc hk hpc
    exact absurd (hacc k pc hk) hpc
  · simp [State.mode, hmain]

theorem Inv.shutDown (hI : Inv s) (hmain : s.main = .deinit)
    (h : ((s.serve (.deinit .main)).map fun s => { s with main := .disable }) = some s') : Inv s' := by
  have hC := hI.control
  have hstop : s.main.stopping := by
    rw [hmain]
    rfl
  obtain ⟨s₁, hserve, rfl⟩ := Option.map_eq_some_iff.mp h
  obtain ⟨r, hr, rfl⟩ := Option.map_eq_some_iff.mp hserve
  obtain ⟨hdown, hidle⟩ := hI.deinit (Or.inr hstop) (by rw [hmain]; simp) (by rw [hmain]; simp)
    (by simp [State.mode, hmain]) hr
  obtain ⟨_, hacc⟩ := hI.quiet_between (Or.inr hstop) (by rw [hmain]; simp) (by rw [hmain]; simp)
  refine ⟨⟨hC.crew, ?_, fun _ => hC.stopping hstop, hC.writers, ?_⟩, fun t _ => hidle t, ?_, hdown⟩
  · intro hs
    cases hs
  · intro k pc hk hpc
    exact absurd (hacc k pc hk) hpc
  · intro k
    show (r.pc _).accepts
    rw [hidle]
    rfl

theorem Inv.disable (hI : Inv s) (hmain : s.main = .disable)
    (h : State.lift { s with main := .out } .release = some s') : Inv s' := by
  have hstop : s.main.stopping := by
    rw [hmain]
    rfl
  obtain ⟨hidle, hacc⟩ := hI.quiet_between (Or.inr hstop) (by rw [hmain]; simp) (by rw [hmain]; simp)
  have hservice := hI.service
  have hmode : s.mode = .down := by simp [State.mode, hmain]
  rw [hmode] at hservice
  obtain ⟨d, hd, rfl⟩ := Option.map_eq_some_iff.mp h
  have hrelease := (hI.control.stopping hstop).1
  exact hI.down hd (step_release hd).2.2.1 hservice hidle
    (Or.inr (by rw [hrelease]; rfl)) hacc

/-- `SilogDaemonDeinit` without the service. -/
theorem Inv.release (hI : Inv s) (hmain : s.main = .out) (hoff : s.daemon.remoteEnabled = false)
    (h : s.lift .release = some s') : Inv s' := by
  have hC := hI.control
  have hacc : ∀ (k : ℕ) pc, s.acceptors[k]? = some pc → pc = .done := by
    intro k pc hk
    apply hC.acceptors_outside (by rw [hmain]; simp) _ hk
    intro henabled
    rw [hoff] at henabled
    cases henabled
  have hservice := hI.service
  have hmode : s.mode = .down := by simp [State.mode, hmain, hoff]
  rw [hmode] at hservice
  obtain ⟨d, hd, rfl⟩ := Option.map_eq_some_iff.mp h
  have hdown := hI.down hd (step_release hd).2.2.1 hservice
    (hI.quiet (Or.inl hoff) fun k hk => by cases hacc k _ hk) (Or.inl hoff) hacc
  rw [← hmain] at hdown
  exact hdown

end service

/-! ## Section 5: Every step keeps the invariant -/

section steps
variable {s s' : State}

theorem Inv.daemon (hI : Inv s) {a : Daemon.Act} (h : daemonStep s a = some s') : Inv s' := by
  cases a with
  | initRemote ret => cases h
  | release =>
    simp only [daemonStep] at h
    split at h
    · next hcond => exact hI.release hcond.1 hcond.2 h
    · cases h
  | thread k =>
    simp only [daemonStep] at h
    split at h
    · split at h
      · next hpc =>
        obtain ⟨d, hd, rfl⟩ := Option.map_eq_some_iff.mp h
        exact hI.thread (fun _ => by rw [hpc]; rfl) hd
      · next hpc =>
        obtain ⟨d, hd, rfl⟩ := Option.map_eq_some_iff.mp h
        have hout : s.isInside (.write k) = false := isInside_write (by rw [hpc]; rfl)
        have hI₁ : Inv (s.setWrite k .before) := hI.setWrite (fun hc => by cases hc)
          (fun hin => by rw [hout] at hin; cases hin)
        exact hI₁.thread (fun _ => by simp [State.setWrite, WritePc.calling]) hd
      · cases h
    · next hbody =>
      obtain ⟨d, hd, rfl⟩ := Option.map_eq_some_iff.mp h
      exact hI.thread (fun hyes => absurd hyes hbody) hd
  | _ => exact hI.plain rfl h

theorem insider_some {a : Remote.Act Caller} {t : Caller} (h : insider a = some t) :
    a.thread = t ∧ a.isDeinit = false ∧ ∀ k entry, a ≠ .broadcast (.remote k) entry := by
  cases a with
  | broadcast t' entry => cases h
  | accept t' => cases h
  | deinit t' => cases h
  | _ => exact ⟨Option.some.inj h, rfl, by simp⟩

theorem idle_of_returned {t : Caller} (h : s.returned t) : s.remote.pc t = .idle := by
  unfold State.returned at h
  split at h
  · next hpc => exact hpc
  · cases h

theorem Inv.broadcast (hI : Inv s) {k : ℕ} {entry : LogEntry} (hpc : s.write k = .call entry)
    (h : (s.setWrite k .inside).serve (.broadcast (.write k) (some entry)) = some s') : Inv s' := by
  have hI₁ : Inv (s.setWrite k .inside) :=
    hI.setWrite (fun _ => hI.control.writers k (by rw [hpc]; rfl))
      (fun hin => by simp [State.isInside, hpc] at hin)
  apply hI₁.serve _ rfl (by simp) h
  simp [Remote.Act.thread, State.isInside, State.setWrite]

theorem Inv.accept (hI : Inv s) {k : ℕ} (hk : s.acceptors[k]? = some .call)
    (h : (s.setAcceptor k .inside).serve (.accept (.remote k)) = some s') : Inv s' := by
  have hI₁ : Inv (s.setAcceptor k .inside) := hI.setAcceptor hk (by simp) (fun hin => by
    rw [isInside_remote, hk] at hin
    cases hin)
  apply hI₁.serve _ rfl (by simp) h
  obtain ⟨hlt, _⟩ := List.getElem?_eq_some_iff.mp hk
  exact isInside_remote.mpr (List.getElem?_set_self hlt)

/-- The test of `g_remoteEnabled`. -/
theorem Inv.testEnabled (hI : Inv s) {k : ℕ} {entry : LogEntry} (hbody : s.leavesBody k)
    (hpc : s.write k = .before) :
    Inv (s.setWrite k (if s.daemon.remoteEnabled then .call entry else .after)) := by
  apply hI.setWrite
  · intro hc
    split at hc
    · next hon => exact ⟨by simpa [State.leavesBody] using hbody, hon⟩
    · cases hc
  · intro hin
    simp [State.isInside, hpc] at hin

theorem Inv.step {a : Act} (hI : Inv s) (h : Step s a s') : Inv s' := by
  unfold Step Service.step at h
  cases a with
  | daemon a => exact hI.daemon h
  | remoteInit env =>
    dsimp only at h
    split at h
    · next hcond => exact hI.remoteInit hcond.1 hcond.2.1 hcond.2.2 h
    · cases h
  | publish =>
    dsimp only at h
    split at h
    · next hmain => cases h; exact hI.publish hmain
    · cases h
  | storeRunning =>
    dsimp only at h
    split at h
    · next hmain => cases h; exact hI.storeRunning hmain
    · cases h
  | createRemote ok =>
    dsimp only at h
    split at h
    · next hmain =>
      obtain ⟨hcreated, hfailed⟩ := hI.createRemote hmain
      split at h <;> cases h
      · exact hcreated
      · exact hfailed
    · cases h
  | undo =>
    dsimp only at h
    split at h
    · next hmain => exact hI.undo hmain h
    · cases h
  | enable =>
    dsimp only at h
    split at h
    · next hmain => exact hI.enable hmain h
    · cases h
  | remoteDeinit =>
    dsimp only at h
    split at h
    · next hcond => cases h; exact hI.remoteDeinit hcond.1 hcond.2.1 hcond.2.2
    · cases h
  | joinRemote =>
    dsimp only at h
    split at h
    · next hcond => cases h; exact hI.joinRemote hcond.1 hcond.2
    · cases h
  | deinit =>
    dsimp only at h
    split at h
    · next hmain => exact hI.shutDown hmain h
    · cases h
  | disable =>
    dsimp only at h
    split at h
    · next hmain => exact hI.disable hmain h
    · cases h
  | testEnabled k entry =>
    dsimp only at h
    split at h
    · next hbody =>
      split at h <;> cases h
      next hpc => exact hI.testEnabled hbody hpc
    · cases h
  | broadcast k =>
    dsimp only at h
    split at h
    · next entry hpc => exact hI.broadcast hpc h
    · cases h
  | leaveBroadcast k =>
    dsimp only at h
    split at h
    · next hcond =>
      cases h
      exact hI.setWrite (fun hc => by cases hc) fun _ => idle_of_returned hcond.2
    · cases h
  | acceptTest k =>
    dsimp only at h
    split at h
    · next hk =>
      cases h
      apply hI.setAcceptor hk (by simp)
      intro hin
      rw [isInside_remote, hk] at hin
      cases hin
    · cases h
  | accept k =>
    dsimp only at h
    split at h
    · next hk => exact hI.accept hk h
    · cases h
  | leaveAccept k =>
    dsimp only at h
    split at h
    · next hcond =>
      cases h
      exact hI.setAcceptor (isInside_remote.mp hcond.1) (by simp) fun _ => idle_of_returned hcond.2
    · cases h
  | serve a =>
    dsimp only at h
    split at h
    · next hin =>
      obtain ⟨t, ht, hin⟩ := (Option.any_eq_true _ _).mp hin
      obtain ⟨rfl, hlive, hrole⟩ := insider_some ht
      exact hI.serve hin hlive hrole h
    · cases h

theorem inv_initial : Inv State.initial := by
  refine ⟨⟨⟨by simp [State.initial, Daemon.State.initial], ?_, ?_⟩, ?_, ?_, ?_, ?_⟩, fun _ _ => rfl,
    fun _ => rfl, rfl, Remote.accounts_initial⟩
  · intro k t ht
    simp [State.initial, Daemon.State.initial] at ht
  · intro h
    cases h
  · intro h
    cases h
  · intro h
    cases h
  · intro k h
    cases h
  · intro k pc h
    simp [State.initial] at h

end steps

end SiLog.Daemon.Service
