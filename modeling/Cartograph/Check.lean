import Cartograph.Analysis.Cycles
import Cartograph.Analysis.Dependencies
import Cartograph.Analysis.Layers
import Cartograph.Config.Load
import Cartograph.Run
import Cartograph.TypeScript.Language

/-!
# Checking a workspace

`check` analyses a workspace with the configuration that lies in its root, TypeScript as the language, and all
analyzers.
-/

namespace Cartograph

def Config.fromFile (fs : FileSystem) (path : String) : Except ConfigError Config :=
  match fs.read path with
  | .error cause => .error (.unreadable path cause.message)
  | .ok bytes =>
    match String.fromUTF8? bytes with
    | some text => Config.read text (some path)
    | none => .error (.unreadable path "stream did not contain valid UTF-8")

namespace Check

def configNames : List String := ["archgraph.toml", ".archgraph.toml"]

def analyzers : List Analyzer := [circularImports, layerBoundaries, dependencyUsage]

def languages : List Language := [TypeScript.language]

def loadConfig (fs : FileSystem) (root : String) : Except ConfigError Config :=
  match (configNames.map (Path.Spelling.under root)).find? fs.isFile with
  | some path => Config.fromFile fs path
  | none => .ok {}

end Check

inductive CheckError where
  | config (error : ConfigError)
  | run (error : RunError)

def check (root : String) (s : Session) : Except CheckError Report × Session :=
  match Check.loadConfig s.files root with
  | .error error => (.error (.config error), s)
  | .ok config =>
    match Plan.make s.files (some root) config Check.languages Check.analyzers false with
    | .error error => (.error (.run error), s)
    | .ok plan =>
      let (result, s) := plan.run.run.run s
      (result.mapError .run, s)

end Cartograph
