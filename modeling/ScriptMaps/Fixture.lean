
namespace ScriptMaps

-- A made-up workspace. The file with the number `i` includes the next one if `i` is below `chainDepth`, and
-- files of the library.
structure Fixture where
  fileCount        : Nat
  mapsPerFile      : Nat
  keysPerMap       : Nat
  chainDepth       : Nat
  libraryFiles     : Nat
  functionsPerFile : Nat
  deriving DecidableEq, Repr

namespace Fixture

def small : Fixture :=
  ⟨10, 2, 5, 3, 2, 2⟩

def medium : Fixture :=
  ⟨50, 4, 10, 10, 5, 5⟩

def large : Fixture :=
  ⟨200, 8, 20, 15, 10, 10⟩

def sharedMap : String :=
  "$mShared"

def libraryDir : String :=
  "udf"

def fileName (i : Nat) : String :=
  "file_" ++ toString i ++ ".au3"

def libraryName (i : Nat) : String :=
  "Udf_" ++ toString i ++ ".au3"

def mapName (i m : Nat) : String :=
  "$mConfig_" ++ toString i ++ "_" ++ toString m

def functionName (i f : Nat) : String :=
  "Setup_" ++ toString i ++ "_" ++ toString f

def includeLines (x : Fixture) (i : Nat) : List String :=
  (if i < x.chainDepth ∧ i + 1 < x.fileCount then ["#include \"" ++ fileName (i + 1) ++ "\""] else []) ++
    (if 0 < x.libraryFiles then ["#include <" ++ libraryName (i % x.libraryFiles) ++ ">"] else [])

def sharedLines (i : Nat) : List String :=
  (if i = 0 then ["Global " ++ sharedMap ++ "[]"] else []) ++
    [sharedMap ++ ".file_" ++ toString i ++ " = " ++ toString i]

-- By turns in dot and in bracket form.
def keyLine (map : String) (k : Nat) : String :=
  if k % 2 = 0 then map ++ ".key_" ++ toString k ++ " = " ++ toString k
  else map ++ "[\"key_" ++ toString k ++ "\"] = \"v" ++ toString k ++ "\""

def mapLines (x : Fixture) (i m : Nat) : List String :=
  ("Global " ++ mapName i m ++ "[]") :: (List.range x.keysPerMap).map (keyLine (mapName i m)) ++ [""]

def functionLines (x : Fixture) (i f : Nat) : List String :=
  ["Func " ++ functionName i f ++ "(ByRef $mTarget)",
    "    ; fills option " ++ toString f,
    "    $mTarget.opt_" ++ toString f ++ " = True",
    "    Return $mTarget",
    "EndFunc"] ++
    (if 0 < x.mapsPerFile then [functionName i f ++ "(" ++ mapName i 0 ++ ")"] else []) ++ [""]

def fileLines (x : Fixture) (i : Nat) : List String :=
  ["#include-once"] ++ x.includeLines i ++ [""] ++ sharedLines i ++ [""] ++
    (List.range x.mapsPerFile).flatMap (x.mapLines i) ++
    (List.range x.functionsPerFile).flatMap (x.functionLines i)

def libraryLines (i : Nat) : List String :=
  ["#include-once", "#cs", sharedMap ++ ".commented_" ++ toString i ++ " = 0", "#ce",
    sharedMap ++ ".udf_" ++ toString i ++ " = 1"]

def textOf (lines : List String) : String :=
  String.join (lines.map (· ++ "\n"))

-- The paths are lists of names.
def files (x : Fixture) : List (List String × String) :=
  (List.range x.fileCount).map (fun i => ([fileName i], textOf (x.fileLines i))) ++
    (List.range x.libraryFiles).map fun i => ([libraryDir, libraryName i], textOf (libraryLines i))

end Fixture

end ScriptMaps
