import SnapshotStore.Error
import SnapshotStore.Toml.Reader

/-!
# Configuration of a database

A configuration bounds concurrency, windows, batches, buffers and scans.  It comes from a preset or
from a TOML document over the standard preset, and is used only if it passes `Config.check`.

* `Config.standard`, `Config.lowMemory`, `Config.testing` — presets.
* `Config.check` — refuses zero where a positive number is needed, and too many shards.
* `Config.ofToml` — reads and checks a document.
* `Config.ofFile` — the same for the content of a file.
-/

namespace SnapshotStore

/-- Why a configuration is refused. -/
inductive ConfigError where
  /-- The file cannot be read. -/
  | io (text : String)
  /-- The document is not well formed, or a field has a value of a wrong kind. -/
  | parse
  /-- A field has a value out of its bounds. -/
  | invalid (reason : String)
  deriving DecidableEq, Repr

namespace ConfigError

/-- The name of the kind of a refusal. -/
def kind : ConfigError → String
  | .io _ => "Io"
  | .parse => "Parse"
  | .invalid _ => "Invalid"

/-- The text of a refusal. -/
def message : ConfigError → String
  | .io text => s!"failed to read config file: {text}"
  | .parse => "failed to parse config:"
  | .invalid reason => s!"invalid config: {reason}"

/-- A refused configuration is a refused argument of the store. -/
def toStore (e : ConfigError) : StoreError := .invalidArgument e.message

/-- A refused configuration is a refused argument of the facade. -/
def toFacade (e : ConfigError) : FacadeError := .invalidArgument e.message

end ConfigError

/-- The choices of a database. -/
structure Config where
  /-- Operations that run at the same time. -/
  maxConcurrentOps : Nat
  /-- Range producers that run at the same time. -/
  maxConcurrentScans : Nat
  /-- Lock stripes of a dictionary. -/
  stripes : Nat
  /-- Items of a window of a multi-key operation. -/
  multiGetWindow : Nat
  /-- Bytes at which a window of a multi-key operation is full. -/
  windowMaxBytes : Nat
  /-- Operations at which a write batch is written. -/
  writeBatchCap : Nat
  /-- Bytes at which a write batch is written. -/
  maxWriteBatchBytes : Nat
  /-- Where a fast count at a snapshot stops. -/
  fastSizeScanCap : Nat
  /-- Parts in which a whole dictionary is counted. -/
  exactSizeShards : Nat
  /-- Items that a range producer may be ahead of its consumer. -/
  streamBuffer : Nat
  /-- Whether ranges are deleted as one operation where the engine can do it. -/
  nativeDeleteRange : Bool
  /-- Keys that the filter of a column expects at least. -/
  bloomCapacity : Nat
  /-- Chains that a cursor visits at a time. -/
  cursorChunk : Nat
  deriving DecidableEq, Repr

namespace Config

/-! ## Presets -/

/-- The preset for a machine with the given number of processors. -/
def standard (processors : Nat) : Config :=
  { maxConcurrentOps := processors * 4, maxConcurrentScans := processors * 2, stripes := 512
    multiGetWindow := 500, windowMaxBytes := 2 * 1024 * 1024, writeBatchCap := 50000
    maxWriteBatchBytes := 1024 * 1024 * 1024, fastSizeScanCap := 100000, exactSizeShards := 16
    streamBuffer := 256, nativeDeleteRange := true, bloomCapacity := 4096, cursorChunk := 128 }

/-- The preset with small windows, batches and buffers. -/
def lowMemory (processors : Nat) : Config :=
  { standard processors with
    multiGetWindow := 64, windowMaxBytes := 256 * 1024, writeBatchCap := 4096
    maxWriteBatchBytes := 16 * 1024 * 1024, streamBuffer := 32, bloomCapacity := 512 }

/-- The preset in which every bound is reached early. -/
def testing : Config :=
  { standard 0 with
    maxConcurrentOps := 8, maxConcurrentScans := 4, stripes := 16, multiGetWindow := 4
    windowMaxBytes := 64, writeBatchCap := 8, fastSizeScanCap := 50, exactSizeShards := 4
    streamBuffer := 2, cursorChunk := 3 }

/-- The preset with the given name, or the standard one. -/
def preset (processors : Nat) : String → Config
  | "testing" => testing
  | "low_memory" => lowMemory processors
  | _ => standard processors

/-! ## Fields -/

/-- The numeric fields. -/
inductive Knob where
  | maxConcurrentOps | maxConcurrentScans | stripes | multiGetWindow | windowMaxBytes
  | writeBatchCap | maxWriteBatchBytes | fastSizeScanCap | exactSizeShards | streamBuffer
  | bloomCapacity | cursorChunk
  deriving DecidableEq, Repr

/-- The numeric fields in the order of their declaration. -/
def Knob.all : List Knob :=
  [.maxConcurrentOps, .maxConcurrentScans, .stripes, .multiGetWindow, .windowMaxBytes,
    .writeBatchCap, .maxWriteBatchBytes, .fastSizeScanCap, .exactSizeShards, .streamBuffer,
    .bloomCapacity, .cursorChunk]

/-- The name of a numeric field. -/
def Knob.name : Knob → String
  | .maxConcurrentOps => "max_concurrent_ops"
  | .maxConcurrentScans => "max_concurrent_scans"
  | .stripes => "stripes"
  | .multiGetWindow => "multi_get_window"
  | .windowMaxBytes => "window_max_bytes"
  | .writeBatchCap => "write_batch_cap"
  | .maxWriteBatchBytes => "max_write_batch_bytes"
  | .fastSizeScanCap => "fast_size_scan_cap"
  | .exactSizeShards => "exact_size_shards"
  | .streamBuffer => "stream_buffer"
  | .bloomCapacity => "bloom_capacity"
  | .cursorChunk => "cursor_chunk"

/-- The name of the field that is a flag. -/
def nativeDeleteRangeName : String := "native_delete_range"

/-- The value of a numeric field. -/
def get (c : Config) : Knob → Nat
  | .maxConcurrentOps => c.maxConcurrentOps
  | .maxConcurrentScans => c.maxConcurrentScans
  | .stripes => c.stripes
  | .multiGetWindow => c.multiGetWindow
  | .windowMaxBytes => c.windowMaxBytes
  | .writeBatchCap => c.writeBatchCap
  | .maxWriteBatchBytes => c.maxWriteBatchBytes
  | .fastSizeScanCap => c.fastSizeScanCap
  | .exactSizeShards => c.exactSizeShards
  | .streamBuffer => c.streamBuffer
  | .bloomCapacity => c.bloomCapacity
  | .cursorChunk => c.cursorChunk

/-- Gives a numeric field a value. -/
def set (c : Config) (k : Knob) (n : Nat) : Config :=
  match k with
  | .maxConcurrentOps => { c with maxConcurrentOps := n }
  | .maxConcurrentScans => { c with maxConcurrentScans := n }
  | .stripes => { c with stripes := n }
  | .multiGetWindow => { c with multiGetWindow := n }
  | .windowMaxBytes => { c with windowMaxBytes := n }
  | .writeBatchCap => { c with writeBatchCap := n }
  | .maxWriteBatchBytes => { c with maxWriteBatchBytes := n }
  | .fastSizeScanCap => { c with fastSizeScanCap := n }
  | .exactSizeShards => { c with exactSizeShards := n }
  | .streamBuffer => { c with streamBuffer := n }
  | .bloomCapacity => { c with bloomCapacity := n }
  | .cursorChunk => { c with cursorChunk := n }

/-! ## Checking -/

/-- The fields that must be positive, in the order in which they are checked. -/
def positive : List Knob :=
  [.maxConcurrentOps, .maxConcurrentScans, .stripes, .multiGetWindow, .windowMaxBytes,
    .writeBatchCap, .maxWriteBatchBytes, .exactSizeShards, .streamBuffer, .cursorChunk]

/-- The greatest number of shards: one for every first byte. -/
def maxShards : Nat := 256

/-- Refuses a configuration with a field out of its bounds. -/
def check (c : Config) : Except ConfigError Unit :=
  match positive.find? fun k => c.get k = 0 with
  | some k => .error (.invalid s!"{k.name} must be greater than 0")
  | none =>
    if c.exactSizeShards > maxShards then
      .error (.invalid s!"exact_size_shards cannot exceed {maxShards}")
    else .ok ()

/-! ## Documents -/

/-- Replaces a numeric field by the one of a document, if it has one. -/
def readKnob (t : Toml.Table) (c : Config) (k : Knob) : Except ConfigError Config :=
  match t.get? k.name with
  | none => .ok c
  | some (.integer n) => if 0 ≤ n then .ok (c.set k n.toNat) else .error .parse
  | some _ => .error .parse

/-- Replaces the flag by the one of a document, if it has one. -/
def readFlag (t : Toml.Table) (c : Config) : Except ConfigError Config :=
  match t.get? nativeDeleteRangeName with
  | none => .ok c
  | some (.boolean b) => .ok { c with nativeDeleteRange := b }
  | some _ => .error .parse

/-- The configuration of a document over the standard preset; keys without a field are ignored. -/
def ofToml (processors : Nat) (text : String) : Except ConfigError Config := do
  let some t := Toml.read? text | throw .parse
  let c ← Knob.all.foldlM (readKnob t) (standard processors)
  let c ← readFlag t c
  c.check
  return c

/-- The configuration of a file with the given content, or of a file that is not there. -/
def ofFile (processors : Nat) (content : Option ByteArray) : Except ConfigError Config :=
  match content with
  | none => .error (.io "No such file or directory (os error 2)")
  | some bytes =>
    match String.fromUTF8? bytes with
    | some text => ofToml processors text
    | none => .error (.io "stream did not contain valid UTF-8")

end Config

end SnapshotStore
