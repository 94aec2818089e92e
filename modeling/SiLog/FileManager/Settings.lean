import SiLog.FileManager.Lifecycle

/-! # Settings made before initialisation

    The setters write into the live configuration, and those for the directory
    and the base name are accepted only before `SilogFileManagerInit`.  But
    `SilogFileManagerInit(NULL)` builds a default configuration and copies it over
    the live one, so nothing that was set before it is left.
-/

open Files Lts

namespace SiLog.FileManager

/-! ## Section 1: What setters are to do -/

/-- A call of a setter. -/
inductive Setting where
  | logDir (dir : Option Str)
  | logFileBase (base : Option Str)
  | maxFileSize (size : UInt32)
  | maxFileCount (count : UInt32)
  | compression (enable : Bool)
  | compressMode (mode : SilogCompressMode)
  | flushMode (mode : SilogFlushMode)
  | asyncFlushInterval (intervalMs : UInt32)
  | asyncFlushSize (size : UInt32)

/-- The call of the file manager. -/
def Setting.call : Setting → Call
  | .logDir dir => .setLogDir dir
  | .logFileBase base => .setLogFileBase base
  | .maxFileSize size => .setMaxFileSize size
  | .maxFileCount count => .setMaxFileCount count
  | .compression enable => .setCompression enable
  | .compressMode mode => .setCompressMode mode
  | .flushMode mode => .setFlushMode mode
  | .asyncFlushInterval intervalMs => .setAsyncFlushInterval intervalMs
  | .asyncFlushSize size => .setAsyncFlushSize size

theorem logDir_size_pos : 0 < 256 := by decide

theorem logFileBase_size_pos : 0 < 64 := by decide

/-- The configuration with the value that was set.  A `NULL` string is refused. -/
def Setting.apply (config : SilogLogFileConfig) : Setting → SilogLogFileConfig
  | .logDir none => config
  | .logDir (some dir) => { config with logDir := CString.ofText 256 logDir_size_pos dir }
  | .logFileBase none => config
  | .logFileBase (some base) => { config with logFileBase := CString.ofText 64 logFileBase_size_pos base }
  | .maxFileSize size => { config with maxFileSize := size }
  | .maxFileCount count => { config with maxFileCount := count }
  | .compression enable => { config with enableCompression := enable }
  | .compressMode mode => { config with compressMode := mode }
  | .flushMode mode => { config with flushMode := mode }
  | .asyncFlushInterval intervalMs => { config with asyncFlushIntervalMs := intervalMs }
  | .asyncFlushSize size => { config with asyncFlushSize := size }

/-- The defaults, with each field that was set at the last value set. -/
def configured (settings : List Setting) : SilogLogFileConfig :=
  settings.foldl Setting.apply silogFileManagerGetDefaultConfig

/-- The settings one after the other. -/
def System.set (s : System) (settings : List Setting) : System :=
  settings.foldl (fun s setting => (s.call setting.call).sys) s

/-! ## Section 2: What they do -/

/-- Before initialisation a setter changes the live configuration as it is to do, and
    nothing else. -/
theorem set_one {s : System} (hno : s.fm.initialized = false) (setting : Setting) :
    (s.call setting.call).sys = s.setConfig fun config => setting.apply config := by
  have htext : ∀ text f, (s.setText (some text) f).sys = s.setConfig (f text) := by
    intro text f
    unfold System.setText
    dsimp only
    rw [if_neg (by rw [hno]; decide)]
    rfl
  cases setting with
  | logDir dir =>
    cases dir with
    | none => rfl
    | some dir => exact htext dir _
  | logFileBase base =>
    cases base with
    | none => rfl
    | some base => exact htext base _
  | maxFileSize _ | maxFileCount _ | compression _ | compressMode _ | flushMode _
  | asyncFlushInterval _ | asyncFlushSize _ => rfl

/-- The live configuration collects the settings. -/
theorem set_config {s : System} (hno : s.fm.initialized = false) (settings : List Setting) :
    s.set settings = s.setConfig fun config => settings.foldl Setting.apply config := by
  induction settings generalizing s with
  | nil => rfl
  | cons setting settings ih =>
    show ((s.call setting.call).sys).set settings = _
    rw [set_one hno]
    exact ih (s := s.setConfig fun config => setting.apply config) hno

/-- **Settings before `Init(NULL)`.** After any setters and a successful
    `SilogFileManagerInit(NULL)` the configuration has the values set, and the path of
    the current file is made of them, exactly if the values set are the defaults. -/
theorem settings_kept_iff {s : System} {settings : List Setting} {env : InitEnv}
    (hno : s.fm.initialized = false)
    (hok : ((s.set settings).call (.init none env)).ret = .ok) :
    (((s.set settings).call (.init none env)).sys.fm.config = configured settings ∧
      ((s.set settings).call (.init none env)).sys.currentPath =
        (configured settings).logDir.chars ++ ['/'] ++ (configured settings).logFileBase.chars ++ dotLog) ↔
    configured settings = silogFileManagerGetDefaultConfig := by
  have hno' : (s.set settings).fm.initialized = false := by
    rw [set_config hno]
    exact hno
  have henv : env.Ready := (initWithConfig_ok_iff hno').mp hok
  have hconfig : ((s.set settings).call (.init none env)).sys.fm.config =
      silogFileManagerGetDefaultConfig := by
    show (silogFileManagerInitWithConfig (s.set settings) _ env).sys.fm.config = _
    rw [initWithConfig_ready hno' henv]
    rfl
  constructor
  · rintro ⟨heq, _⟩
    rw [← heq, hconfig]
  · intro heq
    refine ⟨hconfig.trans heq.symm, ?_⟩
    unfold System.currentPath
    rw [hconfig, currentPath_eq, heq]

/-- A value is set and then the default again. -/
theorem settings_kept_iff_defaults :
    (((System.initial fun _ => none).set [.maxFileCount 3, .maxFileCount 10]).call
      (.init none smoothInit)).sys.fm.config = configured [.maxFileCount 3, .maxFileCount 10] :=
  ((settings_kept_iff (s := System.initial fun _ => none) rfl rfl).mpr rfl).1

/-- `/var/log` and 3 files are set; the log goes to `/tmp/silog` and 10 files are kept. -/
def ownSettings : List Setting :=
  [.logDir (some ['/', 'v', 'a', 'r', '/', 'l', 'o', 'g']), .maxFileCount 3]

theorem settings_lost :
    (((System.initial fun _ => none).set ownSettings).call (.init none smoothInit)).ret = .ok ∧
    (configured ownSettings).maxFileCount = 3 ∧
    (((System.initial fun _ => none).set ownSettings).call
      (.init none smoothInit)).sys.fm.config.maxFileCount = 10 ∧
    (configured ownSettings).logDir.chars = ['/', 'v', 'a', 'r', '/', 'l', 'o', 'g'] ∧
    (((System.initial fun _ => none).set ownSettings).call (.init none smoothInit)).sys.currentPath =
      defaultLogDir.chars ++ ['/'] ++ defaultLogFileBase.chars ++ dotLog := by
  refine ⟨rfl, rfl, rfl, by decide, ?_⟩
  decide +kernel

end SiLog.FileManager
