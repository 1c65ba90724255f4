/-
**The command line.**

A run surveys the data directory and prints the reports.  The environment names the directory with
`QUOTAD_DATA_DIR` and can decline the compaction of logs with `QUOTAD_COMPACT`.  This module reads
the directory, lets the survey run on what it has read, and brings the files up to date; nothing is
decided here.
-/

import Allotment.Survey

set_option relaxedAutoImplicit false
set_option autoImplicit false

namespace Allotment

/-- Reads what is at the place of the data directory. -/
def loadDisk (dir : String) : IO Disk := do
  match ← (IO.FS.realPath dir).toBaseIO with
  | .error _ => return Disk.blank.removeDirectory
  | .ok path =>
    if !(← path.isDir) then return Disk.blank.occupy
    let mut d := Disk.blank
    for e in ← path.readDir do
      if ← e.path.isDir then d := d.setEntry e.fileName .directory
      else d := d.putFile e.fileName (← IO.FS.readBinFile e.path).data.toList
    return d

/-- Gives a file a new content, which takes the place of the old one as a whole. -/
def storeFile (dir name : String) (bytes : Log.Bytes) : IO Unit := do
  let path := dir ++ "/" ++ name
  let temporary := Log.temporaryName path
  IO.FS.writeBinFile temporary ⟨bytes.toArray⟩
  IO.FS.rename temporary path

/-- Brings the files of the data directory from one state to another. -/
def storeChanges (dir : String) (old new : Disk) : IO Unit := do
  match new.names with
  | .error _ => return
  | .ok names =>
    IO.FS.createDirAll dir
    for name in names do
      let before := (old.file? name).map (·.bytes)
      let after := (new.file? name).map (·.bytes)
      if before ≠ after then
        if let some bytes := after then storeFile dir name bytes
    for name in old.names.toOption.getD [] do
      if (new.entry? name).isNone then
        discard (IO.FS.removeFile (dir ++ "/" ++ name)).toBaseIO

end Allotment

open Allotment in
/-- Surveys the data directory, prints the reports, and ends with the status of the survey. -/
def main : IO UInt32 := do
  let dir := (← IO.getEnv "QUOTAD_DATA_DIR").getD "./data"
  let compaction ← IO.getEnv "QUOTAD_COMPACT"
  let old ← loadDisk dir
  let (result, new) := runSurvey old compaction
  storeChanges dir old new
  IO.print result.output
  IO.eprint result.complaint
  return UInt32.ofNat result.status
