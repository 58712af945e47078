import ClassCatalog.Cache.Callers
import ClassCatalog.Engine.Basic

/-!
# Opening modules side by side

One list of containers is opened several times at once, and the loads of all of it go on side by side,
so many of them at a time as the engine has threads. Each open has a token of its own.
-/

namespace ClassCatalog

/-- What a load has come to, if it is over. -/
def Caller.outcome? : Caller → Option (Except ScanError Loaded)
  | load _ (.refused e) => some (.error e)
  | load _ (.returned _ result) => some result
  | _ => none

namespace Crowd

variable {ι ω : Type} [DecidableEq ι] (env : Environment ω) (settings : CacheSettings)

/-- Rounds of turns for the first `width` of the callers whose loads are not over. -/
def settle (width : Nat) (callers : List ι) : Nat → Crowd ι ω → Crowd ι ω
  | 0, s => s
  | n + 1, s =>
    match callers.filter fun i => (s.callers i).outcome?.isNone with
    | [] => s
    | waiting => settle width callers n (s.play env settings (waiting.take width))

end Crowd

namespace Engine

variable {ω : Type} (env : Environment ω)

/-- What the loads of one open come to; a load that is not over has been given up. -/
def gathered (outcomes : ContainerSpec → Nat → Option (Except ScanError Loaded))
    (specs : List ContainerSpec) : Except ScanError View :=
  (allOk <| specs.zipIdx.map fun (spec, i) =>
    match outcomes spec i with
    | some result => result.map fun l => ⟨spec, l.index, l.serial⟩
    | none => .error (.cancelled spec.location.logicalPath)).map View.ofContainers

/-- Opens a list of containers several times at once, in at most so many rounds. -/
def openSideBySide (e : Engine) (specs : List ContainerSpec) (opens rounds : Nat) (world : ω) :
    List (Except ScanError View) × Engine × ω :=
  let m := specs.length
  let s : Crowd Nat ω :=
    { cache := e.cache
      world
      callers := fun i => .load ((specs[i % m]?.map (·.location)).getD default) .ready
      token := fun i => i / m }
  let s := s.settle (e.restricted env) e.options.cacheSettings (e.options.scanThreads.getD 1)
    (List.range (opens * m)) rounds
  ((List.range opens).map fun k => gathered (fun _ i => (s.callers (k * m + i)).outcome?) specs,
    { e with cache := s.cache }, s.world)

end Engine

end ClassCatalog
