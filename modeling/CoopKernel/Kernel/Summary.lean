import CoopKernel.Kernel.Basic
import CoopKernel.Text.Quoted

/-!
# The summary of a kernel

One line that shows the settings, every slot of the process table and the number of ticks.
-/

namespace CoopKernel

/-- The form of an optional value in a summary. -/
def optionSummary (value : Option String) : String :=
  match value with
  | some v => "Some(" ++ v ++ ")"
  | none => "None"

/-- A record in a summary: its name and its fields. -/
def recordSummary (name : String) (fields : List (String × String)) (more : Bool := false) :
    String :=
  let shown := fields.map fun (field, value) => field ++ ": " ++ value
  name ++ " \x7b " ++ String.intercalate ", " (shown ++ if more then [".."] else []) ++ " \x7d"

namespace Handle

/-- The form of a handle in a summary. -/
def summary (h : Handle) : String := "Handle(" ++ Number.decimal h.number.toNat ++ ")"

end Handle

namespace RamInit

/-- The form of a way of filling in a summary. -/
def summary : RamInit → String
  | unseeded => "Unseeded"
  | seeded seed => recordSummary "Seeded" [("seed", Number.decimal seed.toNat)]
  | known value => recordSummary "Known" [("value", Number.decimal value.toNat)]

end RamInit

namespace Settings

/-- The form of settings in a summary. -/
def summary (s : Settings) : String :=
  recordSummary "KernelFlags" [
    ("budget", Number.decimal s.budget.toNat),
    ("counter_reset_ticks", Number.decimal s.resetTicks.toNat),
    ("tmp_dir", Text.quoted s.tmpDir),
    ("default_search_path", Text.quoted s.searchPath),
    ("ram_limit", Number.decimal s.ramLimit.toNat),
    ("ram_init", s.ramInit.summary)]

end Settings

namespace Status

/-- The form of what a process is doing in a summary. -/
def summary : Status → String
  | active => "Active"
  | waitingForExit target deadline =>
    recordSummary "WaitingOnProcess" [("pid", target.text),
      ("deadline", optionSummary (deadline.map fun d => Number.decimal d.toNat))]
  | waitingToRead handle => recordSummary "WaitingOnRead" [("fd", handle.summary)]

end Status

namespace Slot

/-- The form of a slot in a summary; a free one shows as a process without files. -/
def summary (slot : Slot) : String :=
  let (status, p) : String × Process := match slot with
    | free _ => ("Unused", { program := Handle.invalid, backing := Handle.invalid })
    | taken p => (p.status.summary, p)
  recordSummary "ProcRecord" [
    ("status", status),
    ("counter", Number.decimal p.count.toNat),
    ("prog", p.program.summary),
    ("state_fd", p.backing.summary),
    ("last_exit", optionSummary (slot.lastExit?.map fun s => Number.decimal s.toNat))]

end Slot

namespace Table

/-- The form of a process table in a summary. -/
def summary (t : Table) : String :=
  recordSummary "ProcTable" [
    ("slots", "[" ++ String.intercalate ", " (t.slots.toList.map Slot.summary) ++ "]"),
    ("init_used", if t.initUsed then "true" else "false")]

end Table

namespace Kernel

/-- The summary of a kernel. -/
def summary {σ : Type} (k : Kernel σ) : String :=
  recordSummary "Kernel" [
    ("flags", k.settings.summary),
    ("table", k.table.summary),
    ("ticks", Number.decimal k.ticks)] true

end Kernel

end CoopKernel
