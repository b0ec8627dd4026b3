/-
The orphan sweep of a storage prefix (`common/storage/orphan-sweep.ts`).

A pass streams the files under its prefix, asks for each chunk which of its
files a row references, and looks at the files of the chunk one by one. The
enumeration and the lookup may throw, which aborts the pass with the map as
it is then; a delete that fails does not.
-/
import OpenWA.Lib.Reach
import OpenWA.Lib.Record
import OpenWA.Lib.Text

namespace OpenWA.OrphanSweep

/-- `MAX_TRACKED_ORPHANS`. -/
def maxTrackedOrphans : Nat := 100000

/-- The options of a sweep. -/
structure Options where
  keyPrefix : Text
  graceMs : Int
  chunkSize : Option Nat

/-- A pass under way. -/
structure Pass where
  now : Int
  chunk : List Text
  /-- A flush: the referenced set and the files it has not looked at yet. -/
  flushing : Option (List Text × List Text)
  /-- The enumeration has ended. -/
  walked : Bool
  stillOrphaned : List Text

/-- What a pass saw: each file it looked at, and whether a row referenced it. -/
structure Report where
  now : Int
  found : List (Text × Bool)
  completed : Bool

/-- The sweeper's map, its pass and what it did. -/
structure World where
  firstSeenAt : Record Text Int
  pass : Option Pass
  /-- The files deleted, in order. -/
  deleted : List Text
  /-- The passes, the latest first. -/
  reports : List Report

/-- No pass has begun. -/
def World.start : World := ⟨.empty, none, [], []⟩

/-- What can happen in a pass. -/
inductive Act
  | begin (now : Int)
  | list (file : Text)
  | endWalk
  /-- `referencedAmong(chunk)` resolves. -/
  | flush (referenced : List Text)
  /-- The flush looks at its next file; `removable` tells whether a delete succeeds. -/
  | look (removable : Bool)
  | finish
  | abort

/-- The pass looks at a file. -/
def Report.note (file : Text) (referenced : Bool) : List Report → List Report
  | [] => []
  | r :: reports => { r with found := (file, referenced) :: r.found } :: reports

/-- The pass is complete. -/
def Report.complete : List Report → List Report
  | [] => []
  | r :: reports => { r with completed := true } :: reports

/-- The chunk is flushed before another file is listed: the size is looked
at after a file went into it. -/
def Pass.due (o : Options) (p : Pass) : Bool :=
  !p.chunk.isEmpty && o.chunkSize.any (· ≤ p.chunk.length)

namespace World

variable (o : Options) (w : World) (p : Pass)

/-- The loop body of `flush`. -/
def look (referenced : List Text) (file : Text) (removable : Bool) : World :=
  if referenced.contains file then
    { w with
      firstSeenAt := w.firstSeenAt.delete file
      pass := some p
      reports := Report.note file true w.reports }
  else
    let known := w.firstSeenAt.get file
    let w := { w with pass := some p, reports := Report.note file false w.reports }
    if known.isNone && maxTrackedOrphans ≤ w.firstSeenAt.size then w
    else
      let firstSeen := known.getD p.now
      if p.now - firstSeen < o.graceMs || !removable then
        { w with
          firstSeenAt := w.firstSeenAt.set file firstSeen
          pass := some { p with stillOrphaned := file :: p.stillOrphaned } }
      else
        { w with
          firstSeenAt := (w.firstSeenAt.set file firstSeen).delete file
          pass := some { p with stillOrphaned := p.stillOrphaned.filter (· ≠ file) }
          deleted := w.deleted ++ [file] }

/-- The entries of the files still orphaned. -/
def prune (m : Record Text Int) (stillOrphaned : List Text) : Record Text Int :=
  ⟨m.entries.filter fun e => stillOrphaned.contains e.1,
    m.nodup.sublist (List.filter_sublist.map Prod.fst)⟩

/-- One step of a pass. -/
def step (a : Act) : Option World :=
  match a, w.pass with
  | .begin now, none =>
    some { w with
      pass := some ⟨now, [], none, false, []⟩
      reports := ⟨now, [], false⟩ :: w.reports }
  | .list file, some p =>
    if p.flushing.isSome || p.walked || p.due o then none
    else if o.keyPrefix.isPrefixOf file then
      some { w with pass := some { p with chunk := p.chunk ++ [file] } }
    else some w
  | .endWalk, some p =>
    if p.flushing.isSome || p.walked || p.due o then none
    else some { w with pass := some { p with walked := true } }
  | .flush referenced, some p =>
    if p.flushing.isSome || p.chunk.isEmpty || !(p.walked || p.due o) then none
    else some { w with
      pass := some { p with flushing := some (referenced, p.chunk), chunk := [] } }
  | .look removable, some p =>
    match p.flushing with
    | some (referenced, file :: rest) =>
      let left := if rest.isEmpty then none else some (referenced, rest)
      some (w.look o { p with flushing := left } referenced file removable)
    | _ => none
  | .finish, some p =>
    if p.flushing.isSome || !p.chunk.isEmpty || !p.walked then none
    else some { w with
      firstSeenAt := prune w.firstSeenAt p.stillOrphaned
      pass := none
      reports := Report.complete w.reports }
  | .abort, some p => if p.flushing.isSome then none else some { w with pass := none }
  | _, _ => none

end World

/-- Every run of passes. -/
def sweeper (o : Options) : Machine World Act := ⟨fun a w => w.step o a⟩

end OpenWA.OrphanSweep
