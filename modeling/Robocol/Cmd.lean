import Robocol.Wire

/-! Well-known command names and the payloads that travel in `extra`. JSON itself is a
parameter: its decoders and encoders come from outside the repository. -/
namespace Robocol
namespace Cmd

def REQUEST_OP_MODE_LIST : String := "CMD_REQUEST_OP_MODE_LIST"
def INIT_OP_MODE : String := "CMD_INIT_OP_MODE"
def RUN_OP_MODE : String := "CMD_RUN_OP_MODE"
def REQUEST_ACTIVE_CONFIG : String := "CMD_REQUEST_ACTIVE_CONFIG"
def REQUEST_CONFIGURATIONS : String := "CMD_REQUEST_CONFIGURATIONS"
def REQUEST_PARTICULAR_CONFIGURATION : String := "CMD_REQUEST_PARTICULAR_CONFIGURATION"
def REQUEST_USER_DEVICE_TYPES : String := "CMD_REQUEST_USER_DEVICE_TYPES"
def SAVE_CONFIGURATION : String := "CMD_SAVE_CONFIGURATION"
def ACTIVATE_CONFIGURATION : String := "CMD_ACTIVATE_CONFIGURATION"
def DELETE_CONFIGURATION : String := "CMD_DELETE_CONFIGURATION"
def RESTART_ROBOT : String := "CMD_RESTART_ROBOT"
def SCAN : String := "CMD_SCAN"
def DISCOVER_LYNX_MODULES : String := "CMD_DISCOVER_LYNX_MODULES"
def REQUEST_FRAME : String := "CMD_REQUEST_FRAME"

def NOTIFY_OP_MODE_LIST : String := "CMD_NOTIFY_OP_MODE_LIST"
def NOTIFY_INIT_OP_MODE : String := "CMD_NOTIFY_INIT_OP_MODE"
def NOTIFY_RUN_OP_MODE : String := "CMD_NOTIFY_RUN_OP_MODE"
def NOTIFY_ACTIVE_CONFIGURATION : String := "CMD_NOTIFY_ACTIVE_CONFIGURATION"
def NOTIFY_USER_DEVICE_LIST : String := "CMD_NOTIFY_USER_DEVICE_LIST"
def REQUEST_CONFIGURATIONS_RESP : String := "CMD_REQUEST_CONFIGURATIONS_RESP"
def REQUEST_PARTICULAR_CONFIGURATION_RESP : String := "CMD_REQUEST_PARTICULAR_CONFIGURATION_RESP"
def SCAN_RESP : String := "CMD_SCAN_RESP"
def DISCOVER_LYNX_MODULES_RESP : String := "CMD_DISCOVER_LYNX_MODULES_RESP"
def SHOW_STACKTRACE : String := "CMD_SHOW_STACKTRACE"
def STREAM_CHANGE : String := "CMD_STREAM_CHANGE"
def RECEIVE_FRAME_BEGIN : String := "CMD_RECEIVE_FRAME_BEGIN"
def RECEIVE_FRAME_CHUNK : String := "CMD_RECEIVE_FRAME_CHUNK"

def FRAME_CHUNK_SIZE : ℕ := 4096

/-- The SDK's built-in idle OpMode: initing it stops a running one. -/
def DEFAULT_OP_MODE : String := "$Stop$Robot$"

structure FrameBegin where
  frameNum : ℤ
  length : ℤ
  deriving DecidableEq

structure FrameChunk where
  frameNum : ℤ
  chunkNum : ℤ
  encodedData : String
  deriving DecidableEq

structure OpModeMeta where
  name : String
  flavor : String := ""
  group : String := ""
  deriving DecidableEq

structure ConfigMeta where
  isDirty : Bool
  location : String
  name : String
  resourceId : Int64 := 0
  deriving DecidableEq

/-- The typed decoders and encoders of `serde_json`, `none` where they fail. -/
structure Json where
  frameBegin : String → Option FrameBegin
  frameChunk : String → Option FrameChunk
  opModeMetas : String → Option (List OpModeMeta)
  strings : String → Option (List String)
  configMetaText : ConfigMeta → Option String
  frameBeginText : FrameBegin → String
  frameChunkText : FrameChunk → String

/-- The object form first, then a plain string array, then nothing. -/
def parseOpmodeList (json : Json) (extra : String) : List OpModeMeta :=
  match json.opModeMetas extra with
  | some metas => metas
  | none =>
    match json.strings extra with
    | some names => names.map fun name => { name := name }
    | none => []

end Cmd
end Robocol
