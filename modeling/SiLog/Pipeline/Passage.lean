import SiLog.Pipeline.Moves

/-! # One entry on its own

    With nothing else running, the calls of an entry's way follow each other
    without a gap.  This file strings the steps of each call together and
    shows that a system which has just come up takes an entry from `silogLog`
    to the file manager, and loses nothing.
-/

open Lts SiLog.Ipc SiLog.Daemon

namespace SiLog.Pipeline

section alone
variable {κ ι : Type*} [DecidableEq κ] [DecidableEq ι] (lib : CLibrary) {s : State κ ι}

/-- The steps that lose nothing. -/
abbrev Sure (lib : CLibrary) : State κ ι → Act κ ι → State κ ι → Prop :=
  Guarded (Step lib) Lossless

/-! ## Section 1: In a process -/

omit [DecidableEq ι] in
@[simp] theorem setApp_setApp (p : κ) (app app' : App ι) :
    (s.setApp p app).setApp p app' = s.setApp p app' := by
  simp [State.setApp]

omit [DecidableEq ι] in
@[simp] theorem apps_setApp (p : κ) (app : App ι) : (s.setApp p app).apps p = app := by
  simp [State.setApp]

theorem step_push {p : κ} {q : Mpsc.Config ι logEntrySize} {a : Mpsc.Act ι logEntrySize}
    (hin : inPush a) (hq : Mpsc.Step (s.apps p).queue a q) :
    Sure lib s (.push p a) (s.setApp p { s.apps p with queue := q }) := by
  refine ⟨?_, trivial⟩
  simp only [Step, step, if_pos hin, Mpsc.next_of_step hq, Option.map_some]

theorem step_pop {p : κ} {q : Mpsc.Config ι logEntrySize} {a : Mpsc.Act ι logEntrySize}
    {send : SendPc} (hq : Mpsc.Step (s.apps p).queue a q)
    (hafter : (s.apps p).send.after (s.apps p).queue q a = some send) :
    Sure lib s (.pop p a) (s.setApp p { s.apps p with queue := q, send := send }) := by
  refine ⟨?_, trivial⟩
  simp only [Step, step, Mpsc.next_of_step hq, Option.bind_some, hafter, Option.map_some]

/-- The later steps of a `Push` in process `p`. -/
theorem steps_push {p : κ} {c c' : Mpsc.Config ι logEntrySize}
    {as : List (Mpsc.Act ι logEntrySize)} (hrun : Steps Mpsc.Step c as c')
    (hin : ∀ a ∈ as, inPush a) (app : App ι) :
    Steps (Sure lib) (s.setApp p { app with queue := c }) (as.map (.push p))
      (s.setApp p { app with queue := c' }) := by
  induction hrun with
  | nil c => exact .nil _
  | cons a as hstep _ ih =>
    obtain ⟨ha, has⟩ := List.forall_mem_cons.mp hin
    have hfirst := step_push lib (s := s.setApp p { app with queue := _ }) (p := p) ha
      (by rw [apps_setApp]; exact hstep)
    rw [setApp_setApp, apps_setApp] at hfirst
    exact .cons _ _ hfirst (ih has)

omit [DecidableEq ι] in
theorem inPush_of_mid {a : Mpsc.Act ι logEntrySize} (h : a.inPush) : inPush a := by
  cases a with
  | loadRead | cas | copyByte => rfl
  | _ => cases h

/-- A call of `silogLog` that finds room in the queue. -/
theorem run_logged {p : κ} {t : ι} {m : Message} {entry : LogEntry} {turns : List Bool}
    {q' : Mpsc.SiLogMpscQueue logEntrySize}
    (hbuilt : lib.built (s.apps p).minLevel m = some entry)
    (hidle : (s.apps p).queue.1.push t = .idle)
    (hpush : Mpsc.silogMpscQueuePush (s.apps p).queue.1.queue (Logger.entryElem entry) turns =
      some (.ok, q')) :
    ∃ acts h', Steps (Sure lib) s acts
        (s.setApp p { s.apps p with queue := ((s.apps p).queue.1.setPush q' t .idle, h') }) ∧
      h'.popped = (s.apps p).queue.2.popped := by
  obtain ⟨c₁, mid, c₂, h', hfirst, hmid, hin, hlast, hpopped, _⟩ :=
    Mpsc.steps_push (h := (s.apps p).queue.2) hidle hpush
  have hcall : Sure lib s (.silogLog p t m) (s.setApp p { s.apps p with queue := c₁ }) := by
    refine ⟨?_, trivial⟩
    simp only [Step, step, hbuilt, Option.bind_some]
    rw [Mpsc.next_of_step hfirst, Option.map_some]
  have hrest := steps_push lib (s := s) (p := p)
    (hmid.append (.single hlast)) (by
      intro a ha
      obtain hmem | hmem := List.mem_append.mp ha
      · exact inPush_of_mid (hin a hmem)
      · rw [List.mem_singleton.mp hmem]
        rfl) (s.apps p)
  exact ⟨_, h', .cons _ _ hcall hrest, hpopped⟩

/-- The bytes that `Pop` copies in the sending thread. -/
theorem steps_popCopy {p : κ} {c c' : Mpsc.Config ι logEntrySize} {mid : List (Fin logEntrySize)}
    (hrun : Steps Mpsc.Step c (mid.map .popCopyByte) c') (app : App ι) :
    Steps (Sure lib) (s.setApp p { app with queue := c, send := .pop })
      (mid.map fun b => .pop p (.popCopyByte b))
      (s.setApp p { app with queue := c', send := .pop }) := by
  induction mid generalizing c with
  | nil =>
    cases hrun
    exact .nil _
  | cons b mid ih =>
    obtain _ | ⟨_, _, hstep, hrest⟩ := hrun
    have hfirst := step_pop lib (s := s.setApp p { app with queue := c, send := .pop })
      (p := p) (by rw [apps_setApp]; exact hstep) (by rw [apps_setApp]; rfl)
    rw [setApp_setApp, apps_setApp] at hfirst
    exact .cons _ _ hfirst (ih hrest)

/-- The sending thread pops an entry. -/
theorem run_popped {p : κ} {e : Entry} {q' : Mpsc.SiLogMpscQueue logEntrySize}
    (hbody : (s.apps p).send = .body) (hidle : (s.apps p).queue.1.pop = .idle)
    (hpop : Mpsc.silogMpscQueuePop (s.apps p).queue.1.queue = (.ok, some e, q')) :
    ∃ acts, Steps (Sure lib) s acts
      (s.setApp p { s.apps p with
        queue := ((s.apps p).queue.1.setPop q' .idle, (s.apps p).queue.2.pop e), send := .send e }) := by
  obtain ⟨w, q₂, mid, hload, hcheck, hcopy, hfree, hadvance⟩ :=
    Mpsc.steps_pop_ok (h := (s.apps p).queue.2) (fun _ => 0) hidle hpop
  have hone : ∀ {c c' : Mpsc.Config ι logEntrySize} {a : Mpsc.Act ι logEntrySize} {send : SendPc},
      Mpsc.Step c a c' → SendPc.after c c' .pop a = some send →
      Sure lib (s.setApp p { s.apps p with queue := c, send := .pop }) (.pop p a)
        (s.setApp p { s.apps p with queue := c', send := send }) := by
    intro c c' a send hstep hafter
    have h := step_pop lib (s := s.setApp p { s.apps p with queue := c, send := .pop })
      (p := p) (by rw [apps_setApp]; exact hstep) (by rw [apps_setApp]; exact hafter)
    rw [setApp_setApp, apps_setApp] at h
    exact h
  have hstart := step_pop lib (p := p) hload (by rw [hbody]; rfl)
  exact ⟨_, .cons _ _ hstart (.cons _ _ (hone hcheck rfl)
    ((steps_popCopy lib hcopy (s.apps p)).append (.cons _ _ (hone hfree rfl)
      (.single (hone hadvance rfl)))))⟩

/-! ## Section 2: In the daemon -/

/-- The steps of the `Push` of the receive thread between the first and the last. -/
theorem steps_recvPush {c c' : Shutdown.LogQueue} {as : List Shutdown.QueueAct}
    (hrun : Steps Mpsc.Step c as c') (hin : ∀ a ∈ as, a.inPush) :
    Steps (Sure lib) { s with daemon := { s.daemon with recv := .push, queue := c } }
      (as.map .recvPush) { s with daemon := { s.daemon with recv := .push, queue := c' } } := by
  induction hrun with
  | nil c => exact .nil _
  | @cons c c₁ c' a as hstep _ ih =>
    obtain ⟨ha, has⟩ := List.forall_mem_cons.mp hin
    have hfirst : Sure lib { s with daemon := { s.daemon with recv := .push, queue := c } }
        (.recvPush a) { s with daemon := { s.daemon with recv := .push, queue := c₁ } } := by
      cases a with
      | loadRead | cas | copyByte =>
        refine ⟨?_, trivial⟩
        simp only [Step, step, inPush, if_true, Shutdown.step, Shutdown.RecvPc.after,
          Option.bind_some, Mpsc.next_of_step hstep, Option.map_some, endsPush,
          Bool.false_eq_true, if_false]
      | _ => cases ha
    exact .cons _ _ hfirst (ih has)

/-- The receive thread pushes the entry that it has received. -/
theorem run_accepted {e : Entry} {turns : List Bool} {q' : Mpsc.SiLogMpscQueue logEntrySize}
    (hbody : s.daemon.recv = .body) (hheld : s.held = some e)
    (hidle : s.daemon.queue.1.push () = .idle)
    (hpush : Mpsc.silogMpscQueuePush s.daemon.queue.1.queue e turns = some (.ok, q')) :
    ∃ acts h', Steps (Sure lib) s acts
        { s with held := none
                 daemon := { s.daemon with recv := .test
                                           queue := (s.daemon.queue.1.setPush q' () .idle, h') } } ∧
      h'.popped = s.daemon.queue.2.popped ∧ h'.pushed = s.daemon.queue.2.pushed ++ [e] := by
  obtain ⟨c₁, mid, c₂, h', hfirst, hmid, hin, hlast, hpopped, hpushed⟩ :=
    Mpsc.steps_push (h := s.daemon.queue.2) (p := ()) hidle hpush
  have hstart : Sure lib s .recvPushStart
      { s with daemon := { s.daemon with recv := .push, queue := c₁ } } := by
    refine ⟨?_, trivial⟩
    simp only [Step, step, hheld, Option.bind_some, Shutdown.step, hbody, Shutdown.RecvPc.after,
      Mpsc.next_of_step hfirst, Option.map_some]
  have hend : Sure lib { s with daemon := { s.daemon with recv := .push, queue := c₂ } }
      (.recvPush (.storeReady ()))
      { s with held := none
               daemon := { s.daemon with recv := .test
                                         queue := (s.daemon.queue.1.setPush q' () .idle, h') } } := by
    refine ⟨?_, trivial⟩
    have hlast' : Mpsc.Step c₂ (.storeReady ()) (s.daemon.queue.1.setPush q' () .idle, h') := hlast
    simp only [Step, step, inPush, if_true, Shutdown.step, Shutdown.RecvPc.after,
      Option.bind_some, Mpsc.next_of_step hlast', Option.map_some, endsPush]
  exact ⟨_, h', .cons _ _ hstart ((steps_recvPush lib hmid hin).append (.single hend)),
    hpopped, hpushed⟩

theorem step_daemonPop {q : Shutdown.LogQueue} {a : Shutdown.QueueAct} {write : Shutdown.WritePc}
    (hq : Mpsc.Step s.daemon.queue a q)
    (hafter : s.daemon.write.after s.daemon.queue q a = some write) :
    Sure lib s (.other (.pop a)) { s with daemon := { s.daemon with write := write, queue := q } } := by
  refine ⟨?_, trivial⟩
  simp only [Step, step, isLocal, if_true, Shutdown.step, Mpsc.next_of_step hq, Option.bind_some,
    hafter, Option.map_some]

/-- The bytes that `Pop` copies in the write thread. -/
theorem steps_daemonPopCopy {c c' : Shutdown.LogQueue} {mid : List (Fin logEntrySize)}
    (hrun : Steps Mpsc.Step c (mid.map .popCopyByte) c') :
    Steps (Sure lib) { s with daemon := { s.daemon with write := .pop, queue := c } }
      (mid.map fun b => .other (.pop (.popCopyByte b)))
      { s with daemon := { s.daemon with write := .pop, queue := c' } } := by
  induction mid generalizing c with
  | nil =>
    cases hrun
    exact .nil _
  | cons b mid ih =>
    obtain _ | ⟨_, _, hstep, hrest⟩ := hrun
    exact .cons _ _ (step_daemonPop lib
      (s := { s with daemon := { s.daemon with write := .pop, queue := c } }) hstep rfl) (ih hrest)

/-- The write thread pops an entry and writes its line. -/
theorem run_written {e : Entry} {q' : Mpsc.SiLogMpscQueue logEntrySize} {line : List UInt8}
    {timebuf : Vector UInt8 32} {logbuf : Vector UInt8 512}
    (hbody : s.daemon.write = .body) (hidle : s.daemon.queue.1.pop = .idle)
    (hpop : Mpsc.silogMpscQueuePop s.daemon.queue.1.queue = (.ok, some e, q'))
    (hline : Line.silogDaemonWriteThreadFormat lib.localtimeR (Logger.entryOfElem e) timebuf.toList
      logbuf.toList = some (some line)) :
    ∃ acts, Steps (Sure lib) s acts
      { s with lines := s.lines ++ [line]
               daemon := { s.daemon with
                 write := .test, handed := s.daemon.handed ++ [e]
                 queue := (s.daemon.queue.1.setPop q' .idle, s.daemon.queue.2.pop e) } } := by
  obtain ⟨w, q₂, mid, hload, hcheck, hcopy, hfree, hadvance⟩ :=
    Mpsc.steps_pop_ok (h := s.daemon.queue.2) (fun _ => 0) hidle hpop
  have hone : ∀ {c c' : Shutdown.LogQueue} {a : Shutdown.QueueAct} {write : Shutdown.WritePc},
      Mpsc.Step c a c' → Shutdown.WritePc.after c c' .pop a = some write →
      Sure lib { s with daemon := { s.daemon with write := .pop, queue := c } } (.other (.pop a))
        { s with daemon := { s.daemon with write := write, queue := c' } } :=
    fun {c _ _ _} hstep hafter => step_daemonPop lib
      (s := { s with daemon := { s.daemon with write := .pop, queue := c } }) hstep hafter
  have hstart := step_daemonPop lib hload (by rw [hbody]; rfl)
  have hwrite : Sure lib
      { s with daemon := { s.daemon with
                 write := .format e
                 queue := (s.daemon.queue.1.setPop q' .idle, s.daemon.queue.2.pop e) } }
      (.write timebuf logbuf)
      { s with lines := s.lines ++ [line]
               daemon := { s.daemon with
                 write := .test, handed := s.daemon.handed ++ [e]
                 queue := (s.daemon.queue.1.setPop q' .idle, s.daemon.queue.2.pop e) } } := by
    refine ⟨?_, trivial⟩
    simp only [Step, step, hline, Option.bind_some, Option.isSome_some, Shutdown.step, if_true,
      Option.map_some, Option.toList_some]
  exact ⟨_, .cons _ _ hstart (.cons _ _ (hone hcheck rfl)
    ((steps_daemonPopCopy lib hcopy).append (.cons _ _ (hone hfree rfl)
      (.cons _ _ (hone hadvance rfl) (.single hwrite)))))⟩

/-! ## Section 3: All the way -/

/-- The socket of the daemon is bound, and both its threads are in their loops. -/
def State.up (s : State κ ι) (fd : ℕ) : State κ ι :=
  { s with
    agent := { silogIpcInit s.agent .unixDgram with recvFd := fd }
    mine := some s.daemons.next
    daemons := s.daemons.events daemonStart
    daemon := { s.daemon with main := .up, running := true, recv := .body, write := .test } }

/-- The daemon comes up. -/
theorem run_up {fd : ℕ} (hmain : s.daemon.main = .storeRunning) (hrecv : s.daemon.recv = .ipcInit)
    (hwrite : s.daemon.write = .test) (hinit : (silogIpcInit s.agent .unixDgram).isInit) :
    Steps (Sure lib) s
      [.recvStart { socket := some fd, getFl := true, setFl := true, bindOk := true },
        .other .storeRunning, .other .recvTest] (s.up fd) := by
  obtain ⟨apps, daemons, agent, mine, socket, entry, held, daemon, lines, injected⟩ := s
  obtain ⟨main, running, recv, write, queue, handed⟩ := daemon
  dsimp only at hmain hrecv hwrite hinit
  subst hmain
  subst hrecv
  subst hwrite
  have hserver : silogIpcServerInit (silogIpcInit agent .unixDgram)
      { socket := some fd, getFl := true, setFl := true, bindOk := true } =
      (.ok, { silogIpcInit agent .unixDgram with recvFd := fd }) := by
    rw [silogIpcServerInit, if_neg (by rw [hinit]; decide)]
    rfl
  have hrun : exec (step lib) ⟨apps, daemons, agent, mine, socket, entry, held,
      ⟨.storeRunning, running, .ipcInit, .test, queue, handed⟩, lines, injected⟩
      [.recvStart { socket := some fd, getFl := true, setFl := true, bindOk := true },
        .other .storeRunning, .other .recvTest] =
      some (State.up ⟨apps, daemons, agent, mine, socket, entry, held,
        ⟨.storeRunning, running, .ipcInit, .test, queue, handed⟩, lines, injected⟩ fd) := by
    simp only [exec, step, hserver]
    rfl
  have hsteps : Steps (Step lib) _ _ _ := steps_of_exec (fun _ _ _ => id) hrun
  exact hsteps.guarded_of_forall (by simp [Lossless])

/-- The sending thread of `p`, connected to the socket of the daemon, sends its entry, and the
    receive thread takes it. -/
theorem run_sent {p : κ} {e : Entry} {k : ℕ} (hsend : (s.apps p).send = .send e)
    (hagent : (s.apps p).agent.isInit) (hfd : 0 ≤ (s.apps p).agent.sendFd)
    (hpeer : (s.apps p).peer (s.apps p).agent.sendFd = some k) (hlive : k ∈ s.daemons.live)
    (hmine : s.mine = some k) (hsocket : s.socket = []) (hrecv : s.daemon.recv = .body)
    (hheld : s.held = none) (hinit : s.agent.isInit) (hrecvFd : 0 ≤ s.agent.recvFd)
    (hentry : s.entry.length = logEntrySize) :
    ∃ acts, Steps (Sure lib) s acts
      { s.setApp p { s.apps p with send := .body } with entry := List.ofFn e, held := some e } := by
  let w : World := { agent := (s.apps p).agent, peer := (s.apps p).peer, daemons := s.daemons
                     delivered := [] }
  let env : SendEnv := { sendOk := true, gap := [], resendOk := true
                         init := { gap := [], socket := none, getFl := true, setFl := true
                                   connectOk := true } }
  have hworld : s.sent p e env = { w with delivered := [(k, List.ofFn e)] } := by
    have hfd' : ¬ (s.apps p).agent.sendFd < 0 := Int.not_lt.mpr hfd
    simp only [State.sent, silogIpcClientSend, hagent, Bool.true_eq_false, if_false,
      silogIpcDgramClientSend, hfd', World.send, hpeer, hlive, not_true_eq_false, if_true, env]
    rfl
  have hsent : Sure lib s (.send p env)
      { s.setApp p { s.apps p with send := .body } with socket := [List.ofFn e] } := by
    have harrives : arrivals s.mine (s.sent p e env).delivered = [List.ofFn e] := by
      rw [hworld, arrivals_singleton, if_pos hmine]
    constructor
    · simp only [Step, step, hsend, State.sendEntry, harrives, hsocket, List.nil_append]
      rw [hworld]
      rfl
    · intro e' he'
      rw [hsend] at he'
      cases he'
      rw [harrives]
      exact List.cons_ne_nil _ _
  have htaken : Sure lib { s.setApp p { s.apps p with send := .body } with socket := [List.ofFn e] }
      (.recv true)
      { s.setApp p { s.apps p with send := .body } with entry := List.ofFn e, held := some e } := by
    refine ⟨?_, trivial⟩
    have hlen : (List.ofFn e).length = logEntrySize := List.length_ofFn
    have hread : silogIpcServerRecv s.agent s.entry (.datagram (List.ofFn e)) =
        ((logEntrySize : ℤ), List.ofFn e) := by
      rw [Receive.serverRecv_datagram hinit hrecvFd, hentry,
        List.take_of_length_le (Nat.le_of_eq hlen), hlen,
        List.drop_eq_nil_of_le (Nat.le_of_eq hentry), List.append_nil]
    have hguard : s.daemon.recv = .body ∧ s.held.isNone = true := ⟨hrecv, by rw [hheld]; rfl⟩
    have htook : Receive.received s.agent (.datagram (List.ofFn e)) = some (List.ofFn e) :=
      if_pos ⟨hinit, hrecvFd⟩
    have hpos : (0 : ℤ) < logEntrySize := by decide
    simp only [Step, step, State.setApp, hguard, and_self, if_true, State.recvDatagram, recvResult,
      hread, htook, Option.isSome_some, List.tail_cons, hpos, elemOfBytes_ofFn, hsocket]
  exact ⟨_, .cons _ _ hsent (.single htaken)⟩

theorem isInit_silogIpcInit (agent : SilogIpcAgent) : (silogIpcInit agent .unixDgram).isInit := by
  unfold silogIpcInit
  split
  · assumption
  · rfl

/-! ### The system at rest -/

/-- Nobody is in the queue, and it is empty. -/
structure Rests {α : Type*} (c : Mpsc.Config α logEntrySize) : Prop where
  push  : ∀ t, c.1.push t = .idle
  pop   : c.1.pop = .idle
  holds : ∃ r, Mpsc.Holds c.1.queue r []

theorem rests_init {α : Type*} {capacity : UInt32} {mem : UInt32 → Entry}
    (hinit : Mpsc.silogMpscQueueInit capacity (some mem) true = .ok (freshQueue capacity mem)) :
    Rests (Mpsc.initConfig (freshQueue capacity mem) : Mpsc.Config α logEntrySize) :=
  ⟨fun _ => rfl, rfl, 0, (Mpsc.holds_init hinit).2⟩

/-- An entry is pushed into the queue and popped again. -/
theorem Rests.through {α : Type*} {c : Mpsc.Config α logEntrySize} (hR : Rests c) (e : Entry) :
    ∃ q₁ q₂, Mpsc.silogMpscQueuePush c.1.queue e [false] = some (.ok, q₁) ∧
      Mpsc.silogMpscQueuePop q₁ = (.ok, some e, q₂) ∧ ∃ r, Mpsc.Holds q₂ r [] := by
  obtain ⟨r, hholds⟩ := hR.holds
  obtain ⟨q₁, hpush, _, hq₁⟩ := hholds.push_ok hholds.cap_pos e List.mem_cons_self
  obtain ⟨q₂, hpop, _, hq₂⟩ := hq₁.pop_ok
  exact ⟨q₁, q₂, hpush, hpop, r + 1, hq₂⟩

/-- Both threads of the daemon are in their loops, its socket is `k`, and it has nothing to do. -/
structure Waits (s : State κ ι) (k : ℕ) : Prop where
  recv    : s.daemon.recv = .body
  write   : s.daemon.write = .test
  running : s.daemon.running
  queue   : Rests s.daemon.queue
  empty   : queued s.daemon.queue = []
  held    : s.held = none
  socket  : s.socket = []
  agent   : s.agent.isInit
  recvFd  : 0 ≤ s.agent.recvFd
  entry   : s.entry.length = logEntrySize
  mine    : s.mine = some k
  live    : k ∈ s.daemons.live

/-- The sending thread is at the top of its loop, the queue is empty, and the descriptor is
    connected to the socket `k`. -/
structure Connected (app : App ι) (k : ℕ) : Prop where
  send   : app.send = .body
  queue  : Rests app.queue
  agent  : app.agent.isInit
  sendFd : 0 ≤ app.agent.sendFd
  peer   : app.peer app.agent.sendFd = some k

omit [DecidableEq κ] [DecidableEq ι] in
theorem waits_up (b : Start κ) : Waits (State.up (State.initial b : State κ ι) 4) b.daemons.next where
  recv := rfl
  write := rfl
  running := rfl
  queue := rests_init (freshQueue_init b.daemonMem).2
  empty := rfl
  held := rfl
  socket := rfl
  agent := isInit_silogIpcInit b.agent
  recvFd := Int.natCast_nonneg 4
  entry := b.entry.length_toList
  mine := rfl
  live := List.mem_cons_self

/-- The daemon hands over the entry that it has received, and waits for the next one. -/
theorem run_handed {k : ℕ} {e : Entry} {line : List UInt8} {timebuf : Vector UInt8 32}
    {logbuf : Vector UInt8 512} (hW : Waits { s with held := none } k) (hheld : s.held = some e)
    (hline : Line.silogDaemonWriteThreadFormat lib.localtimeR (Logger.entryOfElem e) timebuf.toList
      logbuf.toList = some (some line)) :
    ∃ acts s', Steps (Sure lib) s acts s' ∧ Waits s' k ∧ s'.apps = s.apps ∧
      s'.daemon.handed = s.daemon.handed ++ [e] ∧ s'.lines = s.lines ++ [line] := by
  obtain ⟨q₁, q₂, hpush, hpop, hq₂⟩ := hW.queue.through e
  obtain ⟨acceptActs, h₁, haccepted, hpopped, hpushed⟩ :=
    run_accepted lib (s := s) hW.recv hheld (hW.queue.push ()) hpush
  let s₁ : State κ ι := { s with
    held := none
    daemon := { s.daemon with recv := .test
                              queue := (s.daemon.queue.1.setPush q₁ () .idle, h₁) } }
  -- the write thread takes it out of the queue and writes the line
  have htest : Sure lib s₁ (.other .writeTest)
      { s₁ with daemon := { s₁.daemon with write := .body } } := by
    refine ⟨?_, trivial⟩
    have hwrite : s.daemon.write = .test := hW.write
    have hrunning : s.daemon.running = true := hW.running
    simp only [Step, step, isLocal, if_true, Shutdown.step, s₁, hwrite, hrunning, Option.map_some]
  obtain ⟨writeActs, hwritten⟩ := run_written lib
    (s := { s₁ with daemon := { s₁.daemon with write := .body } }) rfl hW.queue.pop hpop hline
  let s₂ : State κ ι := { s₁ with
    lines := s.lines ++ [line]
    daemon := { s₁.daemon with
      write := .test, handed := s.daemon.handed ++ [e]
      queue := (s₁.daemon.queue.1.setPop q₂ .idle, h₁.pop e) } }
  have hagain : Sure lib s₂ (.other .recvTest)
      { s₂ with daemon := { s₂.daemon with recv := .body } } := by
    refine ⟨?_, trivial⟩
    have hrunning : s.daemon.running = true := hW.running
    simp only [Step, step, isLocal, if_true, Shutdown.step, s₂, s₁, hrunning, Option.map_some]
  refine ⟨_, _, haccepted.append ((Steps.cons _ _ htest hwritten).append (.single hagain)), ?_, rfl,
    rfl, rfl⟩
  refine ⟨rfl, rfl, hW.running, ⟨?_, rfl, hq₂⟩, ?_, rfl, hW.socket, hW.agent, hW.recvFd, hW.entry,
    hW.mine, hW.live⟩
  · intro t
    show Function.update s.daemon.queue.1.push () .idle t = .idle
    exact Function.update_self () _ _
  · have hlen : s.daemon.queue.2.pushed.length ≤ s.daemon.queue.2.popped.length :=
      List.drop_eq_nil_iff.mp hW.empty
    show h₁.pushed.drop (h₁.popped ++ [e]).length = []
    rw [hpopped, hpushed]
    refine List.drop_eq_nil_of_le ?_
    rw [List.length_append, List.length_append]
    exact Nat.add_le_add_right hlen _

/-- A datagram of another program gets through, if what the receive thread makes of it can be
    formatted. -/
theorem run_stray {k : ℕ} {d : List UInt8} {e : Entry} {line : List UInt8}
    {timebuf : Vector UInt8 32} {logbuf : Vector UInt8 512} (hW : Waits s k) (hne : d ≠ [])
    (he : List.ofFn e = d.take logEntrySize ++ s.entry.drop (d.take logEntrySize).length)
    (hline : Line.silogDaemonWriteThreadFormat lib.localtimeR (Logger.entryOfElem e) timebuf.toList
      logbuf.toList = some (some line)) :
    ∃ acts s', Steps (Sure lib) s acts s' ∧ Waits s' k ∧ s'.apps = s.apps ∧
      s'.daemon.handed = s.daemon.handed ++ [e] ∧ s'.lines = s.lines ++ [line] := by
  obtain ⟨bs, hbs⟩ : ∃ bs, bs = List.ofFn e := ⟨_, rfl⟩
  rw [← hbs] at he
  let s₁ : State κ ι := { s with socket := [d], injected := s.injected ++ [d] }
  let s₂ : State κ ι := { s with entry := bs, held := some e, injected := s.injected ++ [d] }
  have hinject : Sure lib s (.inject d) s₁ := by
    refine ⟨?_, trivial⟩
    simp only [Step, step, hW.socket, List.nil_append, s₁]
  have htaken : Sure lib s₁ (.recv true) s₂ := by
    refine ⟨?_, trivial⟩
    have hread : silogIpcServerRecv s.agent s.entry (.datagram d) =
        (((d.take logEntrySize).length : ℤ), bs) := by
      rw [Receive.serverRecv_datagram hW.agent hW.recvFd, hW.entry, he]
    have hel : elemOfBytes bs = e := by rw [hbs, elemOfBytes_ofFn]
    have hguard : s.daemon.recv = .body ∧ s.held.isNone = true := ⟨hW.recv, by rw [hW.held]; rfl⟩
    have htook : Receive.received s.agent (.datagram d) = some d := if_pos ⟨hW.agent, hW.recvFd⟩
    have hpos : (0 : ℤ) < (d.take logEntrySize).length := by
      rw [List.length_take]
      exact Int.natCast_pos.mpr (Nat.lt_min.mpr ⟨by decide, List.length_pos_of_ne_nil hne⟩)
    simp only [Step, step, s₁, hguard, and_self, if_true, State.recvDatagram, recvResult,
      hread, htook, Option.isSome_some, List.tail_cons, hpos, hel, s₂, hW.socket]
  have hlen : bs.length = logEntrySize := by rw [hbs, List.length_ofFn]
  have hwaits : Waits { s₂ with held := none } k :=
    ⟨hW.recv, hW.write, hW.running, hW.queue, hW.empty, rfl, hW.socket, hW.agent, hW.recvFd, hlen,
      hW.mine, hW.live⟩
  obtain ⟨acts, s', hrun, hwaits', happs, hhanded, hlines⟩ := run_handed lib hwaits rfl hline
  exact ⟨_, s', .cons _ _ hinject (.cons _ _ htaken hrun), hwaits', happs, hhanded, hlines⟩

/-- **Passage.** A process whose descriptor is connected to the socket of the daemon logs a message:
    if nothing else happens, nothing is lost and the entry gets all the way through, provided that
    it can be formatted. -/
theorem passage {k : ℕ} {p : κ} (t : ι) {m : Message} {entry : LogEntry} {line : List UInt8}
    {timebuf : Vector UInt8 32} {logbuf : Vector UInt8 512} (hW : Waits s k)
    (hC : Connected (s.apps p) k) (hbuilt : lib.built (s.apps p).minLevel m = some entry)
    (hline : Line.silogDaemonWriteThreadFormat lib.localtimeR
      (Logger.entryOfElem (Logger.entryElem entry)) timebuf.toList logbuf.toList =
      some (some line)) :
    ∃ acts s', Steps (Sure lib) s acts s' ∧ Waits s' k ∧ Connected (s'.apps p) k ∧
      (∀ q, q ≠ p → s'.apps q = s.apps q) ∧
      (s'.apps p).queue.2.popped = (s.apps p).queue.2.popped ++ [Logger.entryElem entry] ∧
      s'.daemon.handed = s.daemon.handed ++ [Logger.entryElem entry] ∧
      s'.lines = s.lines ++ [line] := by
  let e := Logger.entryElem entry
  obtain ⟨q₁, q₂, hpush, hpop, hq₂⟩ := hC.queue.through e
  -- a thread of the process logs the message, and the sending thread takes it
  obtain ⟨logActs, h₁, hlogged, hpopped⟩ := run_logged lib (t := t) hbuilt (hC.queue.push t) hpush
  let app₁ : App ι := { s.apps p with queue := ((s.apps p).queue.1.setPush q₁ t .idle, h₁) }
  have hbody : ((s.setApp p app₁).apps p).send = .body := by rw [apps_setApp]; exact hC.send
  have hidle : ((s.setApp p app₁).apps p).queue.1.pop = .idle := by
    rw [apps_setApp]
    exact hC.queue.pop
  have hpop₁ : Mpsc.silogMpscQueuePop ((s.setApp p app₁).apps p).queue.1.queue =
      (.ok, some e, q₂) := by
    rw [apps_setApp]
    exact hpop
  obtain ⟨popActs, htaken⟩ := run_popped lib hbody hidle hpop₁
  rw [setApp_setApp, apps_setApp] at htaken
  let app₂ : App ι := { app₁ with queue := (app₁.queue.1.setPop q₂ .idle, app₁.queue.2.pop e)
                                  send := .send e }
  -- it sends it, and the daemon receives it
  obtain ⟨sendActs, hsent⟩ := run_sent lib (s := s.setApp p app₂) (p := p) (e := e)
    (k := k) (by rw [apps_setApp]) (by rw [apps_setApp]; exact hC.agent)
    (by rw [apps_setApp]; exact hC.sendFd) (by rw [apps_setApp]; exact hC.peer) hW.live hW.mine
    hW.socket hW.recv hW.held hW.agent hW.recvFd hW.entry
  rw [setApp_setApp, apps_setApp] at hsent
  have hlen : (List.ofFn e).length = logEntrySize := by rw [List.length_ofFn]
  generalize List.ofFn e = bs at hsent hlen
  let app₃ : App ι := { app₂ with send := .body }
  let s₃ : State κ ι := { s.setApp p app₃ with entry := bs, held := some e }
  have hwaits : Waits { s₃ with held := none } k :=
    ⟨hW.recv, hW.write, hW.running, hW.queue, hW.empty, rfl, hW.socket, hW.agent, hW.recvFd, hlen,
      hW.mine, hW.live⟩
  obtain ⟨acts, s', hrun, hwaits', happs, hhanded, hlines⟩ :=
    run_handed lib (s := s₃) hwaits rfl hline
  have happ : s'.apps p = app₃ := by rw [happs, show s₃.apps p = app₃ from apps_setApp p app₃]
  refine ⟨_, s', hlogged.append (htaken.append (hsent.append hrun)), hwaits', ?_, ?_, ?_, hhanded,
    hlines⟩
  · rw [happ]
    refine ⟨rfl, ⟨fun t' => ?_, rfl, hq₂⟩, hC.agent, hC.sendFd, hC.peer⟩
    show Function.update (s.apps p).queue.1.push t .idle t' = .idle
    by_cases ht : t' = t
    · rw [ht, Function.update_self]
    · rw [Function.update_of_ne ht]
      exact hC.queue.push t'
  · intro q hq
    rw [happs]
    exact Function.update_of_ne hq _ _
  · rw [happ]
    exact congrArg (· ++ [e]) hpopped

end alone

end SiLog.Pipeline
