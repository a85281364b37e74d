import Runbook.Template.Resolve
import Runbook.Json.Decode

/-!
# Engine configuration

Every setting has a default, so a missing or partial configuration is always usable. Settings in
seconds are kept as written.
-/

set_option autoImplicit false

namespace Runbook

namespace MissingPath

def display : MissingPath → String
  | .empty => "empty"
  | .fail => "fail"

def decode : Decoder MissingPath := Decode.variant [("empty", .empty), ("fail", .fail)]

end MissingPath

structure Config where
  /-- Ceiling on the queries of one fan-out that run at the same time. -/
  maxFanOutWorkers : Nat := 4
  missingPath : MissingPath := .empty
  /-- A failed memory read counts as no memory. -/
  tolerateReadErrors : Bool := false
  gateTimeoutSecs : Option Nat := none
  defaultToolTimeoutSecs : Option Nat := none
  /-- Timeouts of single tools, in the order of their names. -/
  toolTimeouts : Fields Nat := []
  memoryRetentionDays : Nat := 30
  /-- Longer outputs are cut before later steps see them. -/
  maxStepOutputBytes : Nat := 1048576

namespace Config

/-- The timeout of a tool in seconds: its own, else the default. -/
def toolTimeout? (c : Config) (tool : String) : Option Nat :=
  (Fields.get? tool c.toolTimeouts).or c.defaultToolTimeoutSecs

/-- The age in seconds beyond which memory is purged by default. -/
def retentionSecs (c : Config) : Nat := c.memoryRetentionDays * 86400

def encode (c : Config) : Json :=
  .obj ([("max_fan_out_workers", Json.nat c.maxFanOutWorkers),
      ("missing_path", .str c.missingPath.display),
      ("tolerate_store_read_errors", .bool c.tolerateReadErrors)] ++
    Encode.optional "gate_timeout_secs" (c.gateTimeoutSecs.map Json.nat) ++
    Encode.optional "default_tool_timeout_secs" (c.defaultToolTimeoutSecs.map Json.nat) ++
    Encode.when (!c.toolTimeouts.isEmpty) "tool_timeouts"
      (.obj (c.toolTimeouts.map fun e => (e.1, Json.nat e.2))) ++
    [("memory_retention_days", Json.nat c.memoryRetentionDays),
      ("max_step_output_bytes", Json.nat c.maxStepOutputBytes)])

def knownFields : List Decode.FieldCheck :=
  [ Decode.spare "max_fan_out_workers" Decode.size,
    Decode.spare "missing_path" MissingPath.decode,
    Decode.spare "tolerate_store_read_errors" Decode.boolean,
    Decode.spare "gate_timeout_secs" (Decode.option Decode.word64),
    Decode.spare "default_tool_timeout_secs" (Decode.option Decode.word64),
    Decode.spare "tool_timeouts" (Decode.table Decode.word64),
    Decode.spare "memory_retention_days" Decode.word32,
    Decode.spare "max_step_output_bytes" Decode.size ]

def decode : Decoder Config := fun v => do
  let fs ← Decode.record "EngineConfig" knownFields v
  let base : Config := {}
  return {
    maxFanOutWorkers :=
      ← Decode.withDefault "max_fan_out_workers" Decode.size base.maxFanOutWorkers fs
    missingPath := ← Decode.withDefault "missing_path" MissingPath.decode base.missingPath fs
    tolerateReadErrors :=
      ← Decode.withDefault "tolerate_store_read_errors" Decode.boolean base.tolerateReadErrors fs
    gateTimeoutSecs := ← Decode.optional "gate_timeout_secs" Decode.word64 fs
    defaultToolTimeoutSecs := ← Decode.optional "default_tool_timeout_secs" Decode.word64 fs
    toolTimeouts :=
      Fields.sorted (← Decode.withDefault "tool_timeouts" (Decode.table Decode.word64) [] fs)
    memoryRetentionDays :=
      ← Decode.withDefault "memory_retention_days" Decode.word32 base.memoryRetentionDays fs
    maxStepOutputBytes :=
      ← Decode.withDefault "max_step_output_bytes" Decode.size base.maxStepOutputBytes fs }

end Config
end Runbook
