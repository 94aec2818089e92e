import SiLog.Cat.Args
import SiLog.Daemon.Line
import SiLog.Remote.Link

/-! # What `silogcat` prints (`silog_cat.c`)

    The main loop connects to the daemon, receives with a timeout, and
    connects again when the connection is gone.  The callback of the client
    prints one line for every entry that passes the filters.  A banner tells
    when a connection is there and when it is lost; `SIGINT` and `SIGTERM` end
    the loop at its next test.

    The loop runs over a link to the daemon, with everything that may happen
    to it.  The screen is then the transcript of the connections: the loop
    prints what the callback gets, nothing twice, and always tells at what
    point a connection was lost.
-/

open Lts Printf SiLog.Securec SiLog.Remote

namespace SiLog.Cat

/-! ## Section 1: A line -/

/-- `g_levelChars` -/
def levelChars : List UInt8 := ascii "DIWEF"

/-- `COLOR_RESET` -/
def colorReset : List UInt8 := 27 :: ascii "[0m"

/-- `COLOR_DEBUG` to `COLOR_FATAL` -/
def levelColors : List (List UInt8) :=
  [27 :: ascii "[36m", 27 :: ascii "[32m", 27 :: ascii "[33m", 27 :: ascii "[31m", 27 :: ascii "[35m"]

/-- `SilogCatGetLevelColor` -/
def silogCatGetLevelColor (config : SilogCatConfig) (level : UInt32) : List UInt8 :=
  if config.useColor = false then [] else levelColors.getD level.toNat []

/-- `SilogCatFormatTime`; `none` is undefined behaviour, when `localtime_r` leaves the fields unset. -/
def silogCatFormatTime (localtimeR : Int64 → Option Daemon.Line.Tm) (ts : UInt64) (bufSize : ℕ) :
    Option (List UInt8) :=
  let sec := (ts / 1000).toInt64
  let ms := ts % 1000
  (localtimeR sec).bind fun tm =>
    match vprintf convertPlain (ascii "%02d-%02d %02d:%02d:%02d.%03d")
      [.int (tm.mon + 1).toInt, .int tm.mday.toInt, .int tm.hour.toInt, .int tm.min.toInt,
       .int tm.sec.toInt, .int ms.toNat] with
    | .text t => some (t.take (bufSize - 1))
    | _ => none

/-- `char timeStr[32]` -/
def timeStrSize : ℕ := 32

/-- `SilogCatPrintLog`: the line, or `none` inside for an entry that is filtered out; `none` outside
    is undefined behaviour. -/
def silogCatPrintLog (config : SilogCatConfig) (localtimeR : Int64 → Option Daemon.Line.Tm)
    (entry : LogEntry) : Option (Option (List UInt8)) :=
  if entry.level < config.minLevel then some none
  else
    (cString entry.tag.toList).bind fun tag =>
      -- `strstr(entry->tag, filterTag) == NULL`
      if config.filterTag.bytes ≠ [] ∧ ¬ config.filterTag.bytes <:+: tag then some none
      else
        (silogCatFormatTime localtimeR entry.ts timeStrSize).bind fun time =>
          (cString entry.msg.toList).bind fun msg =>
            (cString entry.file.toList).bind fun file =>
              let levelChar := levelChars.getD entry.level.toNat 63
              let color := silogCatGetLevelColor config entry.level
              let reset := if config.useColor then colorReset else []
              match vprintf convertSpaced (ascii "%s %5d %5d %s%c%s/%s: %s (%s:%d)\n")
                [.str time, .int entry.pid.toInt, .int entry.tid.toInt, .str color, .char levelChar,
                 .str reset, .str tag, .str msg, .str file, .int entry.line.toInt32.toInt] with
              | .text t => some (some t)
              | _ => none

/-! ## Section 2: The main loop -/

/-- What the main loop prints. -/
inductive Item where
  | connected
  | disconnected
  /-- A line of the callback. -/
  | line (text : List UInt8)
  | shutdown
  deriving DecidableEq

def Item.text (config : SilogCatConfig) : Item → List UInt8
  | .connected => ascii "[Connected to " ++ config.serverAddr.bytes ++ ascii ":" ++
      integer 0 config.serverPort.toNat ++ ascii "]\n\n"
  | .disconnected => ascii "\n[Disconnected, reconnecting...]\n"
  | .line text => text
  | .shutdown => ascii "\n[Shutting down...]\n"

/-- What `main` prints before the loop. -/
def header (config : SilogCatConfig) : List UInt8 :=
  ascii "Connecting to " ++ config.serverAddr.bytes ++ ascii ":" ++
    integer 0 config.serverPort.toNat ++ ascii "...\n" ++
    (if config.filterTag.bytes ≠ [] then
      ascii "Filtering tag: " ++ config.filterTag.bytes ++ ascii "\n" else []) ++
    (if 0 < config.minLevel then
      ascii "Min level: " ++ integer 0 config.minLevel.toNat ++ ascii "\n" else []) ++
    ascii "Press Ctrl+C to exit\n\n"

/-- The configuration that `main` gives to `SilogRemoteClientInit`; `strncpy_s` copies the whole address. -/
def remoteConfig (config : SilogCatConfig) : SilogRemoteClientConfig where
  serverAddr := String.ofList (config.serverAddr.bytes.map fun b => Char.ofNat b.toNat)
  serverPort := config.serverPort
  useReconnect := true
  reconnectMs := 5000

/-- Where `main` is. -/
inductive MainPc where
  /-- Before `SilogRemoteClientInit`. -/
  | start
  /-- At the loop test. -/
  | test
  /-- Before `SilogRemoteClientIsConnected`. -/
  | check
  /-- Before `SilogRemoteClientReceive`. -/
  | receive
  | done
  deriving DecidableEq

/-- `main` on its link to the daemon, with what it has printed since the header. -/
structure Watch where
  link         : Link
  running      : Bool
  pc           : MainPc
  wasConnected : Bool
  out          : List Item

def Watch.initial : Watch where
  link := .initial
  running := true
  pc := .start
  wasConnected := false
  out := []

/-- What `main` has written to its standard output. -/
def Watch.stdout (config : SilogCatConfig) (s : Watch) : List UInt8 :=
  if s.pc = .start then [] else header config ++ s.out.flatMap (Item.text config)

inductive WatchAct where
  /-- A step of the service, or of another client of it. -/
  | server (c : Call)
  | accept (i : ℕ) (fd : ℤ) (getFl setFl : Bool)
  /-- `SilogCatSignalHandler` -/
  | signal
  | start
  | test
  /-- `SilogRemoteClientIsConnected`, and `SilogRemoteClientConnect` if it is not. -/
  | check (env : ConnectEnv)
  | receive (select : SelectResult)

/-- `SilogRemoteClientIsConnected` -/
def silogRemoteClientIsConnected (ctx : SilogRemoteClientCtx) : Bool := ctx.isInit && ctx.isConnected

/-- What a step does on the link. -/
def Watch.linkAct (config : SilogCatConfig) (s : Watch) : WatchAct → Option LinkAct
  | .server c => some (.server c)
  | .accept i fd getFl setFl => some (.accept i fd getFl setFl)
  | .signal => none
  | .start => some (.client (.init (some (remoteConfig config))))
  | .test => if s.running then none else some (.client .deinit)
  | .check env =>
    if silogRemoteClientIsConnected s.link.client.ctx then none else some (.client (.connect env))
  | .receive select => some (.client (.receive true select))

/-- The lines of some entries, in order. -/
def silogCatPrintLogs (config : SilogCatConfig) (localtimeR : Int64 → Option Daemon.Line.Tm)
    (entries : List LogEntry) : Option (List (List UInt8)) :=
  (entries.mapM (silogCatPrintLog config localtimeR)).map List.reduceOption

/-- What a step does in `main`; the link is left as it is. -/
def Watch.mainStep (config : SilogCatConfig) (localtimeR : Int64 → Option Daemon.Line.Tm) (s : Watch) :
    WatchAct → Option Watch
  | .server _ | .accept _ _ _ _ => some s
  | .signal => some { s with running := false }
  | .start => if s.pc = .start then some { s with pc := .test } else none
  | .test =>
    if s.pc = .test then
      if s.running then some { s with pc := .check }
      else some { s with pc := .done, out := s.out ++ [.shutdown] }
    else none
  | .check env =>
    if s.pc = .check then
      let ctx := s.link.client.ctx
      if silogRemoteClientIsConnected ctx then some { s with pc := .receive }
      else
        let out := if s.wasConnected then s.out ++ [.disconnected] else s.out
        if (silogRemoteClientConnect ctx env).1 = .ok then
          some { s with pc := .receive, wasConnected := true, out := out ++ [.connected] }
        -- the process sleeps before the next attempt
        else some { s with pc := .test, wasConnected := false, out := out }
    else none
  | .receive select =>
    if s.pc = .receive then
      let r := silogRemoteClientReceive s.link.client.ctx true select
      (silogCatPrintLogs config localtimeR r.entries).map fun lines =>
        { s with pc := .test, out := s.out ++ lines.map .line }
    else none

def WatchStep (config : SilogCatConfig) (localtimeR : Int64 → Option Daemon.Line.Tm) (s : Watch)
    (a : WatchAct) (s' : Watch) : Prop :=
  (∀ b, s.linkAct config a = some b → LinkOk s.link b) ∧
  ∃ main, s.mainStep config localtimeR a = some main ∧
    s' = { main with link := (s.linkAct config a).elim s.link s.link.next }

/-! ## Section 3: The transcript -/

section transcript
variable (config : SilogCatConfig) (localtimeR : Int64 → Option Daemon.Line.Tm)

/-- What is printed for an entry. -/
def printed (entry : LogEntry) : List (List UInt8) :=
  ((silogCatPrintLog config localtimeR entry).getD none).toList

/-- What is printed while a connection lasts. -/
def shown (st : Stream) : List Item :=
  .connected :: (st.delivered.flatMap (printed config localtimeR)).map .line

/-- What is printed for some connections, the latest first. -/
def transcript : List Stream → List Item
  | [] => []
  | st :: past =>
    (if past = [] then [] else transcript past ++ [.disconnected]) ++ shown config localtimeR st

variable {config localtimeR}

theorem printLogs_eq {entries : List LogEntry} {lines : List (List UInt8)}
    (h : silogCatPrintLogs config localtimeR entries = some lines) :
    lines = entries.flatMap (printed config localtimeR) := by
  obtain ⟨outs, houts, rfl⟩ := Option.map_eq_some_iff.mp h
  clear h
  induction entries generalizing outs with
  | nil =>
    cases houts
    rfl
  | cons e entries ih =>
    rw [List.mapM_cons] at houts
    obtain ⟨out, hout, hrest⟩ := Option.bind_eq_some_iff.mp houts
    obtain ⟨outs', houts', heq⟩ := Option.bind_eq_some_iff.mp hrest
    cases heq
    rw [List.flatMap_cons, ← ih outs' houts']
    have hone : printed config localtimeR e = out.toList := by rw [printed, hout, Option.getD_some]
    rw [hone]
    cases out with
    | none => rfl
    | some text => rfl

/-- More lines on the current connection. -/
theorem transcript_add (st : Stream) (past : List Stream) (r : Receipt) :
    transcript config localtimeR (st.add r :: past) = transcript config localtimeR (st :: past) ++
      (r.entries.flatMap (printed config localtimeR)).map .line := by
  simp [transcript, shown, Stream.add, List.append_assoc]

end transcript

/-! ## Section 4: The loop prints the transcript -/

section loop
variable {config : SilogCatConfig} {localtimeR : Int64 → Option Daemon.Line.Tm} {s s' : Watch}
  {a : WatchAct}

/-- A call of `Connect` on a client that is initialised and not connected. -/
theorem connect_result {c : Client} (hinit : c.ctx.isInit) (hdown : c.ctx.isConnected = false)
    (env : ConnectEnv) :
    (c.call (.connect env)).ctx.isInit ∧
    (((silogRemoteClientConnect c.ctx env).1 = .ok ∧ (c.call (.connect env)).ctx.isConnected ∧
        (c.call (.connect env)).streams = { received := [], delivered := [] } :: c.streams) ∨
      ((silogRemoteClientConnect c.ctx env).1 ≠ .ok ∧
        (c.call (.connect env)).ctx.isConnected = false ∧
        (c.call (.connect env)).streams = c.streams)) := by
  unfold Client.call silogRemoteClientConnect
  simp only [hinit, hdown, Bool.true_eq_false, Bool.false_eq_true, if_false, true_and]
  cases env.socket with
  | none => simp
  | some fd =>
    cases env.addrOk with
    | false => simp
    | true =>
      cases env.connectOk with
      | false => simp
      | true => simp

/-- The screen while `main` has these connections: the transcript, and the banner of the last one
    if its end was noticed. -/
def screen (config : SilogCatConfig) (localtimeR : Int64 → Option Daemon.Line.Tm)
    (streams : List Stream) (wasConnected : Bool) : List Item :=
  transcript config localtimeR streams ++
    if streams ≠ [] ∧ wasConnected = false then [.disconnected] else []

/-- The invariant of the loop. -/
structure WatchInv (config : SilogCatConfig) (localtimeR : Int64 → Option Daemon.Line.Tm) (s : Watch) :
    Prop where
  out    : s.pc ≠ .done →
    s.out = screen config localtimeR s.link.client.streams s.wasConnected
  done   : s.pc = .done →
    s.out = screen config localtimeR s.link.client.streams s.wasConnected ++ [.shutdown]
  start  : s.pc = .start → s.link.client.ctx = .initial
  up     : s.pc ≠ .start → s.pc ≠ .done → s.link.client.ctx.isInit
  shows  : s.link.client.ctx.isConnected → s.wasConnected
  opened : s.wasConnected → s.link.client.streams ≠ []

theorem watchInv_initial : WatchInv config localtimeR .initial :=
  ⟨fun _ => rfl, by simp [Watch.initial], fun _ => rfl, fun h => absurd rfl h,
    fun h => absurd h Bool.false_ne_true, fun h => absurd h Bool.false_ne_true⟩

/-- The steps that leave the client alone. -/
theorem WatchInv.same_client (hI : WatchInv config localtimeR s) {link : Link}
    (hclient : link.client = s.link.client) : WatchInv config localtimeR { s with link := link } := by
  refine ⟨?_, ?_, ?_, ?_, ?_, ?_⟩
  all_goals
    dsimp only
    rw [hclient]
  · exact hI.out
  · exact hI.done
  · exact hI.start
  · exact hI.up
  · exact hI.shows
  · exact hI.opened

/-- A call of `Receive`: what it passes to the callback comes from the current connection. -/
theorem receive_result {c : Client} (select : SelectResult) :
    (c.call (.receive true select)).ctx.isInit = c.ctx.isInit ∧
    ((c.call (.receive true select)).ctx.isConnected → c.ctx.isConnected) ∧
    (((silogRemoteClientReceive c.ctx true select).entries = [] ∧
        (c.call (.receive true select)).streams = c.streams) ∨
      (c.ctx.isConnected ∧ (c.call (.receive true select)).streams =
        c.streams.modifyHead fun st => st.add (silogRemoteClientReceive c.ctx true select))) := by
  obtain ⟨hinit, hconn, _, bytes, rfl⟩ | ⟨code, request, ctx', heq, _, hctx⟩ :=
    receive_cases c.ctx true select
  · refine ⟨?_, fun _ => hconn, Or.inr ⟨hconn, rfl⟩⟩
    simp only [Client.call, silogRemoteClientReceive, hinit, hconn, Bool.true_eq_false, if_false]
  · have hstreams : (c.call (.receive true select)).streams = c.streams := by
      simp only [Client.call, heq]
      cases c.streams with
      | nil => rfl
      | cons st past => simp [List.modifyHead, Stream.add, Receipt.empty]
    have hctx' : ctx'.isInit = c.ctx.isInit ∧ (ctx'.isConnected → c.ctx.isConnected) := by
      obtain rfl | rfl := hctx
      · exact ⟨rfl, id⟩
      · unfold silogRemoteClientDisconnect
        split
        · exact ⟨rfl, id⟩
        · exact ⟨rfl, fun h => absurd h Bool.false_ne_true⟩
    refine ⟨?_, ?_, Or.inl ⟨by rw [heq]; rfl, hstreams⟩⟩
    · simp only [Client.call, heq]
      exact hctx'.1
    · simp only [Client.call, heq]
      exact hctx'.2

theorem WatchInv.start_step (hI : WatchInv config localtimeR s) (hpc : s.pc = .start) :
    WatchInv config localtimeR { s with
      pc := .test, link := s.link.next (.client (.init (some (remoteConfig config)))) } := by
  have hctx := hI.start hpc
  refine ⟨fun _ => hI.out (by simp [hpc]), by simp, by simp, fun _ _ => ?_, ?_, hI.opened⟩
  · simp only [Link.next, Client.call, hctx]
    rfl
  · simp only [Link.next, Client.call, hctx]
    exact fun h => absurd h Bool.false_ne_true

theorem WatchInv.stop_step (hI : WatchInv config localtimeR s) (hpc : s.pc = .test) :
    WatchInv config localtimeR { s with
      pc := .done, out := s.out ++ [.shutdown], link := s.link.next (.client .deinit) } := by
  have hinit := hI.up (by simp [hpc]) (by simp [hpc])
  have hdown : (s.link.client.call .deinit).ctx.isConnected = false := by
    simp only [Client.call, silogRemoteClientDeinit, silogRemoteClientDisconnect, hinit,
      Bool.true_eq_false, if_false]
  refine ⟨fun h => absurd rfl h, fun _ => ?_, by simp, fun _ h => absurd rfl h, ?_, hI.opened⟩
  · dsimp only
    rw [hI.out (by simp [hpc])]
    rfl
  · intro hup
    have hconn : (s.link.client.call .deinit).ctx.isConnected := hup
    rw [hdown] at hconn
    cases hconn

theorem WatchInv.move (hI : WatchInv config localtimeR s) {pc : MainPc} (hpc : s.pc ≠ .start)
    (hpc' : s.pc ≠ .done) (hnew : pc ≠ .start) (hnew' : pc ≠ .done) :
    WatchInv config localtimeR { s with pc := pc } :=
  ⟨fun _ => hI.out hpc', fun h => absurd h hnew', fun h => absurd h hnew, fun _ _ => hI.up hpc hpc',
    hI.shows, hI.opened⟩

/-- A banner for the connection that is gone. -/
theorem screen_noticed (streams : List Stream) (wasConnected : Bool)
    (hopened : wasConnected → streams ≠ []) :
    (if wasConnected then screen config localtimeR streams wasConnected ++ [.disconnected]
      else screen config localtimeR streams wasConnected) =
      screen config localtimeR streams false := by
  cases wasConnected with
  | false => rfl
  | true => simp [screen, hopened]

theorem screen_opened (streams : List Stream) :
    screen config localtimeR streams false ++ [.connected] =
      screen config localtimeR ({ received := [], delivered := [] } :: streams) true := by
  cases streams with
  | nil => rfl
  | cons st past => simp [screen, transcript, shown]

/-- The loop connects, or tries to. -/
theorem WatchInv.check_step (hI : WatchInv config localtimeR s) (hpc : s.pc = .check)
    (hdown : silogRemoteClientIsConnected s.link.client.ctx = false) {env : ConnectEnv} {main : Watch}
    (h : s.mainStep config localtimeR (.check env) = some main) :
    WatchInv config localtimeR { main with link := s.link.next (.client (.connect env)) } := by
  have hinit := hI.up (by simp [hpc]) (by simp [hpc])
  have hconn : s.link.client.ctx.isConnected = false := by
    simpa [silogRemoteClientIsConnected, hinit] using hdown
  have hout : (if s.wasConnected then
      screen config localtimeR s.link.client.streams s.wasConnected ++ [.disconnected]
      else screen config localtimeR s.link.client.streams s.wasConnected) =
        screen config localtimeR s.link.client.streams false :=
    screen_noticed _ _ hI.opened
  rw [← hI.out (by simp [hpc])] at hout
  have hclient : (s.link.next (.client (.connect env))).client =
      s.link.client.call (.connect env) := rfl
  simp only [Watch.mainStep, if_pos hpc, hdown, Bool.false_eq_true, if_false] at h
  rw [hout] at h
  obtain ⟨hinit', ⟨hret, hup, hstreams⟩ | ⟨hret, hdown', hstreams⟩⟩ :=
    connect_result hinit hconn env
  · rw [if_pos hret] at h
    cases h
    refine ⟨fun _ => ?_, by simp, by simp, fun _ _ => hinit', fun _ => rfl, fun _ => ?_⟩
    · dsimp only
      rw [hclient, hstreams]
      exact screen_opened _
    · rw [hclient, hstreams]
      exact List.cons_ne_nil _ _
  · rw [if_neg hret] at h
    cases h
    refine ⟨fun _ => ?_, by simp, by simp, fun _ _ => hinit', ?_,
      fun h => absurd h Bool.false_ne_true⟩
    · dsimp only
      rw [hclient, hstreams]
    · intro hup
      rw [hclient, hdown'] at hup
      cases hup

/-- The callback prints. -/
theorem WatchInv.receive_step (hI : WatchInv config localtimeR s) (hpc : s.pc = .receive)
    {select : SelectResult} {lines : List (List UInt8)}
    (hlines : silogCatPrintLogs config localtimeR
      (silogRemoteClientReceive s.link.client.ctx true select).entries = some lines) :
    WatchInv config localtimeR { s with
      pc := .test, out := s.out ++ lines.map .line
      link := s.link.next (.client (.receive true select)) } := by
  have hinit := hI.up (by simp [hpc]) (by simp [hpc])
  have hout := hI.out (by simp [hpc])
  have hclient : (s.link.next (.client (.receive true select))).client =
      s.link.client.call (.receive true select) := rfl
  obtain ⟨hinit', hconn', hcase⟩ := receive_result (c := s.link.client) select
  rw [printLogs_eq hlines]
  obtain ⟨hnone, hstreams⟩ | ⟨hconn, hstreams⟩ := hcase
  · refine ⟨fun _ => ?_, by simp, by simp, fun _ _ => hinit'.trans hinit,
      fun h => hI.shows (hconn' h), ?_⟩
    · dsimp only
      rw [hclient, hstreams, hnone, List.flatMap_nil, List.map_nil, List.append_nil]
      exact hout
    · rw [hclient, hstreams]
      exact hI.opened
  · have hwas := hI.shows hconn
    refine ⟨fun _ => ?_, by simp, by simp, fun _ _ => hinit'.trans hinit, fun _ => hwas, fun _ => ?_⟩
    · dsimp only
      rw [hclient, hstreams, hout, hwas]
      cases hst : s.link.client.streams with
      | nil => exact absurd hst (hI.opened hwas)
      | cons st past =>
        simp [screen, transcript_add]
    · rw [hclient, hstreams]
      cases hst : s.link.client.streams with
      | nil => exact absurd hst (hI.opened hwas)
      | cons st past => exact List.cons_ne_nil _ _

theorem WatchInv.step (hI : WatchInv config localtimeR s)
    (h : WatchStep config localtimeR s a s') : WatchInv config localtimeR s' := by
  obtain ⟨_, main, hmain, rfl⟩ := h
  cases a with
  | server c =>
    cases hmain
    exact hI.same_client rfl
  | accept i fd getFl setFl =>
    cases hmain
    exact hI.same_client rfl
  | signal =>
    cases hmain
    exact ⟨hI.out, hI.done, hI.start, hI.up, hI.shows, hI.opened⟩
  | start =>
    simp only [Watch.mainStep] at hmain
    split at hmain
    next hpc =>
      cases hmain
      exact hI.start_step hpc
    · cases hmain
  | test =>
    simp only [Watch.mainStep] at hmain
    split at hmain
    next hpc =>
      by_cases hrun : s.running
      · rw [if_pos hrun] at hmain
        cases hmain
        simp only [Watch.linkAct, if_pos hrun, Option.elim_none]
        exact hI.move (by simp [hpc]) (by simp [hpc]) (by simp) (by simp)
      · rw [if_neg hrun] at hmain
        cases hmain
        simp only [Watch.linkAct, if_neg hrun, Option.elim_some]
        exact hI.stop_step hpc
    · cases hmain
  | check env =>
    have hpc : s.pc = .check := by
      simp only [Watch.mainStep] at hmain
      split at hmain
      next hpc => exact hpc
      · cases hmain
    cases hconn : silogRemoteClientIsConnected s.link.client.ctx with
    | true =>
      simp only [Watch.mainStep, if_pos hpc, hconn, if_true, Option.some.injEq] at hmain
      subst hmain
      simp only [Watch.linkAct, hconn, if_true, Option.elim_none]
      exact hI.move (by simp [hpc]) (by simp [hpc]) (by simp) (by simp)
    | false =>
      simp only [Watch.linkAct, hconn, Bool.false_eq_true, if_false, Option.elim_some]
      exact hI.check_step hpc hconn hmain
  | receive select =>
    simp only [Watch.mainStep] at hmain
    split at hmain
    next hpc =>
      obtain ⟨lines, hlines, rfl⟩ := Option.map_eq_some_iff.mp hmain
      exact hI.receive_step hpc hlines
    · cases hmain

theorem watchInv_run {acts : List WatchAct}
    (hrun : Steps (WatchStep config localtimeR) .initial acts s) : WatchInv config localtimeR s :=
  hrun.invariant (fun _ _ _ hstep hI => hI.step hstep) watchInv_initial

theorem WatchInv.out_eq (hI : WatchInv config localtimeR s) :
    s.out = screen config localtimeR s.link.client.streams s.wasConnected ++
      if s.pc = .done then [.shutdown] else [] := by
  by_cases hpc : s.pc = .done
  · rw [if_pos hpc]
    exact hI.done hpc
  · rw [if_neg hpc, List.append_nil]
    exact hI.out hpc

end loop

/-! ## Section 5: From the broadcast to the screen -/

section order
variable {config : SilogCatConfig} {localtimeR : Int64 → Option Daemon.Line.Tm} {s : Watch}

/-- The lines of the callback among what was printed. -/
def Item.lines (out : List Item) : List (List UInt8) :=
  out.filterMap fun item => match item with
    | .line text => some text
    | _ => none

theorem lines_shown (st : Stream) :
    Item.lines (shown config localtimeR st) = st.delivered.flatMap (printed config localtimeR) := by
  simp [Item.lines, shown, List.filterMap_map]

theorem lines_transcript (streams : List Stream) :
    Item.lines (transcript config localtimeR streams) =
      (allDelivered streams).flatMap (printed config localtimeR) := by
  induction streams with
  | nil => rfl
  | cons st past ih =>
    rw [transcript, allDelivered_cons, List.flatMap_append, ← ih, ← lines_shown]
    split
    next hpast =>
      subst hpast
      rfl
    · simp [Item.lines]

/-- Only the transcript has lines. -/
theorem lines_screen (streams : List Stream) (wasConnected : Bool) :
    Item.lines (screen config localtimeR streams wasConnected) =
      (allDelivered streams).flatMap (printed config localtimeR) := by
  rw [← lines_transcript]
  unfold screen
  split
  · simp [Item.lines]
  · rw [List.append_nil]

/-- No call of the service stalls. -/
def WatchCalm (s : Watch) : WatchAct → Prop
  | .server c => NoStall s.link.server c
  | _ => True

theorem WatchCalm.link {a : WatchAct} (h : WatchCalm s a) {b : LinkAct}
    (hb : s.linkAct config a = some b) : LinkCalm s.link b := by
  intro c hc
  cases a with
  | server c' =>
    cases hb
    cases hc
    exact h
  | accept i fd getFl setFl =>
    cases hb
    cases hc
    trivial
  | signal => cases hb
  | start =>
    cases hb
    cases hc
  | test =>
    rw [Watch.linkAct, Option.ite_none_left_eq_some] at hb
    cases hb.2
    cases hc
  | check env =>
    rw [Watch.linkAct, Option.ite_none_left_eq_some] at hb
    cases hb.2
    cases hc
  | receive select =>
    cases hb
    cases hc

/-- What a step does on the link. -/
theorem WatchStep.link {s' : Watch} {a : WatchAct}
    (h : Guarded (WatchStep config localtimeR) WatchCalm s a s') :
    Moves (Guarded LinkStep LinkCalm) s.link (s.linkAct config a) s'.link := by
  obtain ⟨⟨hok, main, _, rfl⟩, hcalm⟩ := h
  cases hact : s.linkAct config a with
  | none => rfl
  | some b => exact ⟨⟨hok b hact, rfl⟩, hcalm.link hact⟩

/-- The lines on the screen are those of entries that were broadcast. -/
theorem lines_run {acts : List WatchAct}
    (hrun : Steps (Guarded (WatchStep config localtimeR) WatchCalm) .initial acts s) :
    ∃ es : List LogEntry, es.Sublist s.link.server.history ∧
      Item.lines s.out =
        (es.map fun e => decodeEntry (entryBytes e)).flatMap (printed config localtimeR) := by
  obtain ⟨_, hlink⟩ := hrun.project (f := Watch.link) fun s a s' h => ⟨_, WatchStep.link h⟩
  obtain ⟨es, hsub, hgot⟩ := delivered_run hlink
  refine ⟨es, hsub, ?_⟩
  rw [← hgot, (watchInv_run hrun.of_guarded).out_eq, ← lines_screen _ s.wasConnected]
  split
  · simp [Item.lines]
  · rw [List.append_nil]

end order

section runs
variable {config : SilogCatConfig} {localtimeR : Int64 → Option Daemon.Line.Tm} {s : Watch}

/-- The state after a step that is defined. -/
def Watch.after (config : SilogCatConfig) (localtimeR : Int64 → Option Daemon.Line.Tm) (s : Watch)
    (a : WatchAct) : Watch :=
  { (s.mainStep config localtimeR a).getD s with link := (s.linkAct config a).elim s.link s.link.next }

/-- A step that the system allows and that is defined. -/
def WatchOk (config : SilogCatConfig) (localtimeR : Int64 → Option Daemon.Line.Tm) (s : Watch)
    (a : WatchAct) : Prop :=
  (∀ b ∈ s.linkAct config a, LinkOk s.link b) ∧ (s.mainStep config localtimeR a).isSome = true

instance (config : SilogCatConfig) (localtimeR : Int64 → Option Daemon.Line.Tm) (s : Watch)
    (a : WatchAct) : Decidable (WatchOk config localtimeR s a) :=
  inferInstanceAs (Decidable (_ ∧ _))

theorem watchStep_after {a : WatchAct} (h : WatchOk config localtimeR s a) :
    WatchStep config localtimeR s a (s.after config localtimeR a) := by
  obtain ⟨hok, hsome⟩ := h
  obtain ⟨main, hmain⟩ := Option.isSome_iff_exists.mp hsome
  refine ⟨hok, main, hmain, ?_⟩
  unfold Watch.after
  rw [hmain, Option.getD_some]

/-- `localtime_r` for the witnesses. -/
def newYear : Int64 → Option Daemon.Line.Tm :=
  fun _ => some { year := 124, mon := 0, mday := 1, hour := 0, min := 0, sec := 0 }

/-- The daemon starts, and `silogcat` connects and is about to receive. -/
def connecting : List WatchAct :=
  [.server (.init none { malloc := true, socket := some 3, bind := true, listen := true,
                         getFl := true, setFl := true }),
   .start, .test, .check { socket := some 5, addrOk := true, connectOk := true },
   .accept 0 4 true true]

/-- It gets an entry, loses the connection, opens another one while the daemon sends the next
    entry, gets a third one there, and is stopped by a signal. -/
def watched : List WatchAct :=
  connecting ++
  [.server (.broadcast (some (sampleEntry 0)) fun _ _ => .accepted 376),
   .receive (.ready (.data (entryBytes (sampleEntry 0)))),
   .test, .check { socket := none, addrOk := true, connectOk := true }, .receive (.ready .closed),
   .server (.broadcast (some (sampleEntry 1)) fun _ _ => .failed),
   .test, .check { socket := some 6, addrOk := true, connectOk := true },
   .accept 0 7 true true,
   .server (.broadcast (some (sampleEntry 2)) fun _ _ => .accepted 376),
   .receive (.ready (.data (entryBytes (sampleEntry 2)))),
   .signal, .test]

def Watch.run (acts : List WatchAct) : Watch :=
  acts.foldl (Watch.after .initial newYear) .initial

theorem Watch.run_of_allowed {acts : List WatchAct}
    (h : Allowed (WatchOk .initial newYear) (Watch.after .initial newYear) .initial acts) :
    Steps (WatchStep .initial newYear) .initial acts (.run acts) :=
  steps_of_allowed (fun _ _ hok => watchStep_after hok) h

theorem connecting_run : Steps (WatchStep .initial newYear) .initial connecting (.run connecting) :=
  Watch.run_of_allowed (by decide +kernel)

theorem watched_shown :
    Allowed (WatchOk .initial newYear) (Watch.after .initial newYear) .initial watched ∧
    (Watch.run watched).out =
      [.connected, .line (ascii "01-01 00:00:00.000  4711    -1 W/:  (:42)\n"),
       .disconnected, .connected, .line (ascii "01-01 00:00:00.002  4711    -1 W/:  (:42)\n"),
       .shutdown] ∧
    (Watch.run watched).link.server.history.length = 3 := by
  decide +kernel

theorem watched_run : Steps (WatchStep .initial newYear) .initial watched (.run watched) :=
  Watch.run_of_allowed watched_shown.1

theorem watched_calm : Steps (Guarded (WatchStep .initial newYear) WatchCalm) .initial watched
    (.run watched) := by
  refine watched_run.guarded_of_forall ?_
  simp only [watched, connecting, List.cons_append, List.nil_append, List.forall_mem_cons]
  refine ⟨?_, ?_, ?_, ?_, ?_, ?_, ?_, ?_, ?_, ?_, ?_, ?_, ?_, ?_, ?_, ?_, ?_, ?_, nofun⟩
  all_goals intro s
  all_goals try trivial
  · exact noStall_steady s.link.server (some (sampleEntry 0)) fun _ => .accepted 376
  · exact noStall_steady s.link.server (some (sampleEntry 1)) fun _ => .failed
  · exact noStall_steady s.link.server (some (sampleEntry 2)) fun _ => .accepted 376

end runs

section order
variable {config : SilogCatConfig} {localtimeR : Int64 → Option Daemon.Line.Tm} {s : Watch}

/-- **Order on the screen.** If no record stalls, then the lines on the screen, over all
    connections, are those of a subsequence of the entries broadcast, as they are read off the wire
    and filtered: no entry is shown twice, and none before one that was broadcast earlier. -/
theorem screen_order {acts : List WatchAct}
    (hrun : Steps (Guarded (WatchStep config localtimeR) WatchCalm) .initial acts s) :
    ∃ got es, es.Sublist s.link.server.history ∧ List.Forall₂ ReadOff got es ∧
      Item.lines s.out = got.flatMap (printed config localtimeR) := by
  obtain ⟨es, hsub, hlines⟩ := lines_run hrun
  exact ⟨_, es, hsub, readOff_map es, hlines⟩

theorem screen_order_watched :
    (Item.lines (Watch.run watched).out).length = 2 ∧
    (Watch.run watched).link.server.history.length = 3 ∧
    ∃ got es, es.Sublist (Watch.run watched).link.server.history ∧ List.Forall₂ ReadOff got es ∧
      Item.lines (Watch.run watched).out = got.flatMap (printed .initial newYear) :=
  ⟨by rw [watched_shown.2.1]; rfl, watched_shown.2.2, screen_order watched_calm⟩

end order

end SiLog.Cat
