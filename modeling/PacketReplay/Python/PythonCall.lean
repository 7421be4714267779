import Mathlib.Data.List.DropRight
import PacketReplay.Lib.CLibrary
import PacketReplay.Lib.Proc

/-!
# Calls of Python functions

`PythonCall` and `ValidatePythonCall`, on an interpreter that counts the strong references to
its objects. A validation releases its arguments twice, so it comes to no verdict unless the
function that is called has kept them (`validate_ne_ok`).
-/

namespace PacketReplay

open Lib

/-! ## Paths -/

namespace Path

/-- What stands behind the last separator. -/
def filename (path : Bytes) : Bytes := path.rtakeWhile (· ≠ 47)

/-- What stands in front of the last component, without the separators that end it. -/
def parentPath (path : Bytes) : Bytes :=
  let dir := path.rdropWhile (· ≠ 47)
  match dir.rdropWhile (· = 47) with
  | [] => if dir = path then path else dir.take 1
  | front => front

/-- The last dot of the file name and what stands behind it. A dot in front of everything
else begins no extension. -/
def extension (path : Bytes) : Bytes :=
  let name := filename path
  let ext := name.rtakeWhile (· ≠ 46)
  if name = ascii ".." ∨ name.length ≤ ext.length + 1 then [] else 46 :: ext

def stem (path : Bytes) : Bytes :=
  (filename path).take ((filename path).length - (extension path).length)

end Path

/-! ## The interpreter -/

/-- A pointer to an object. -/
abbrev Obj : Type := Nat

/-- The interpreter behind its C interface. A call goes on the state of it, and answers
`none` where it gives a null pointer. -/
structure Interpreter (σ : Type) : Type where
  /-- The strong references to an object. -/
  refs : σ → Obj → Nat
  /-- A strong reference is given back. -/
  release : Obj → σ → σ
  runSimpleString : Bytes → σ → σ
  errPrint : σ → σ
  unicodeFromString : Bytes → σ → Option Obj × σ
  importModule : Option Obj → σ → Option Obj × σ
  getAttrString : Obj → Bytes → σ → Option Obj × σ
  /-- The tuple of two `bytes`. -/
  buildValue : Bytes → Bytes → σ → Option Obj × σ
  callObject : Obj → Obj → σ → Option Obj × σ
  boolCheck : Obj → σ → Bool
  pyTrue : Obj

namespace Interpreter

variable {σ : Type}

/-- What the interface promises of the references to arguments. -/
structure Documented (py : Interpreter σ) : Prop where
  built : ∀ {expected actual s args t}, py.buildValue expected actual s = (some args, t) →
    py.refs t args = 1
  released : ∀ {o s}, py.refs s o = 1 → py.refs (py.release o s) o = 0

/-- No function keeps the tuple that it is called with. -/
def Lends (py : Interpreter σ) : Prop :=
  ∀ {f args s}, py.refs s args = 1 → py.refs (py.callObject f args s).2 args = 1

/-- A call that answers a pointer. -/
def ask (f : σ → Option Obj × σ) : Proc Fault σ (Option Obj) := fun s => (.ok (f s).1, (f s).2)

/-- A look at the state. -/
def look (f : σ → Bool) : Proc Fault σ Bool := fun s => (.ok (f s), s)

def throws {α : Type} (what : Bytes) : Proc Fault σ α := Proc.stop (.thrown (.runtimeError what))

/-- `Py_DECREF`, of an object that has to be there. -/
def decref (py : Interpreter σ) : Option Obj → Proc Fault σ Unit
  | none => Proc.stop (.undefined .nullPointer)
  | some o => fun s =>
      if py.refs s o = 0 then (.error (.undefined .indeterminateValue), s)
      else (.ok (), py.release o s)

variable {py : Interpreter σ} {o : Obj} {s : σ}

theorem decref_of_live (live : py.refs s o ≠ 0) : py.decref (some o) s = (.ok (), py.release o s) :=
  if_neg live

theorem decref_of_dead (dead : py.refs s o = 0) :
    py.decref (some o) s = (.error (.undefined .indeterminateValue), s) := if_pos dead

theorem ask_of_eq {f : σ → Option Obj × σ} {answer : Option Obj} {t : σ}
    (same : f s = (answer, t)) : ask f s = (.ok answer, t) := by
  rw [ask, same]

end Interpreter

open Interpreter (ask look throws)

structure PythonCall : Type where
  pyFunc : Option Obj
  funcName : Bytes

namespace PythonCall

variable {σ : Type} (py : Interpreter σ)

/-- The statement that has modules looked for beside the script. -/
def sysPathCmd (script : Bytes) : Bytes :=
  let parentPath := Path.parentPath script
  ascii "sys.path.append(\"" ++ (if parentPath = [] then ascii "." else cstr parentPath) ++
    ascii "\")"

/-- The constructor. It does not look at the function that it finds in the module. -/
def create (script funcName : Bytes) : Proc Fault σ PythonCall := do
  Proc.modify (py.runSimpleString (ascii "import sys"))
  Proc.modify (py.runSimpleString (sysPathCmd script))
  if Path.extension script ≠ ascii ".py" then throws (ascii "python file must end with .py")
  let name ← ask (py.unicodeFromString (cstr (Path.stem script)))
  match ← ask (py.importModule name) with
  | none => do
      Proc.modify py.errPrint
      throws (ascii "importing python module failed")
  | some module => do
      let pyFunc ← ask (py.getAttrString module (cstr funcName))
      py.decref (some module)
      py.decref name
      return ⟨pyFunc, funcName⟩

/-- A call through a pointer that may be null. -/
def callFunc (call : PythonCall) (args : Obj) : Proc Fault σ (Option Obj) :=
  match call.pyFunc with
  | none => Proc.stop (.undefined .nullPointer)
  | some f => ask (py.callObject f args)

/-- What becomes of the result. The arguments are released in front of the check of it and
behind it. -/
def verdict (call : PythonCall) (args result : Obj) : Proc Fault σ Bool := do
  py.decref (some args)
  if ← look (py.boolCheck result) then
    py.decref (some args)
    py.decref (some result)
    return result == py.pyTrue
  else
    throws (ascii "python function " ++ call.funcName ++ ascii " must return bool")

/-- The call with arguments that have been built. -/
def validateArgs (call : PythonCall) (args : Obj) : Proc Fault σ Bool := do
  match ← call.callFunc py args with
  | none => do
      Proc.modify py.errPrint
      throws (ascii "caling python function failed")
  | some result => call.verdict py args result

/-- `ValidatePythonCall::validate`. -/
def validate (call : PythonCall) (expected actual : Bytes) : Proc Fault σ Bool := do
  match ← ask (py.buildValue expected actual) with
  | none => do
      Proc.modify py.errPrint
      throws (ascii "building python arguments failed")
  | some args => call.validateArgs py args

/-! ## What a verdict takes -/

variable {py} {call : PythonCall} {args result : Obj} {s : σ} {b : Bool}

/-- The second release finds no arguments where there was one reference to them. -/
theorem verdict_ne_ok (documented : py.Documented) (lent : py.refs s args = 1) :
    (call.verdict py args result s).1 ≠ .ok b := by
  have first : py.decref (some args) s = (.ok (), py.release args s) :=
    Interpreter.decref_of_live (by rw [lent]; exact one_ne_zero)
  have gone := Interpreter.decref_of_dead (documented.released lent)
  intro answered
  have whole : call.verdict py args result s = _ := Proc.bind_of_ok first
  rw [whole] at answered
  cases checked : py.boolCheck result (py.release args s) with
  | true =>
      have looked : look (py.boolCheck result) (py.release args s) =
          (.ok true, py.release args s) := by
        rw [look, checked]
      rw [Proc.bind_of_ok looked, if_pos rfl, Proc.bind_of_error gone] at answered
      cases answered
  | false =>
      have looked : look (py.boolCheck result) (py.release args s) =
          (.ok false, py.release args s) := by
        rw [look, checked]
      rw [Proc.bind_of_ok looked] at answered
      cases answered

theorem validateArgs_ne_ok (documented : py.Documented) (lends : py.Lends)
    (lent : py.refs s args = 1) : (call.validateArgs py args s).1 ≠ .ok b := by
  intro answered
  rcases call with ⟨_ | f, funcName⟩
  · cases answered
  · have kept := lends (f := f) lent
    rcases called : py.callObject f args s with ⟨_ | result, t⟩
    · have behind : callFunc py ⟨some f, funcName⟩ args s = (.ok none, t) :=
        Interpreter.ask_of_eq called
      have whole : validateArgs py ⟨some f, funcName⟩ args s = _ := Proc.bind_of_ok behind
      rw [whole] at answered
      cases answered
    · have behind : callFunc py ⟨some f, funcName⟩ args s = (.ok (some result), t) :=
        Interpreter.ask_of_eq called
      have whole : validateArgs py ⟨some f, funcName⟩ args s =
          verdict py ⟨some f, funcName⟩ args result t := Proc.bind_of_ok behind
      rw [whole] at answered
      rw [called] at kept
      exact verdict_ne_ok documented kept answered

/-- A function that keeps nothing is never heard. -/
theorem validate_ne_ok (documented : py.Documented) (lends : py.Lends) (call : PythonCall)
    (expected actual : Bytes) (s : σ) (b : Bool) :
    (call.validate py expected actual s).1 ≠ .ok b := by
  intro answered
  rcases built : py.buildValue expected actual s with ⟨_ | args, t⟩
  · have whole : call.validate py expected actual s = _ :=
      Proc.bind_of_ok (Interpreter.ask_of_eq built)
    rw [whole] at answered
    cases answered
  · have whole : call.validate py expected actual s = call.validateArgs py args t :=
      Proc.bind_of_ok (Interpreter.ask_of_eq built)
    rw [whole] at answered
    exact validateArgs_ne_ok documented lends (documented.built built) answered

end PythonCall

end PacketReplay
