import PacketReplay.Lib.CLibrary

/-!
# Actions

What a conversation is recorded as: `include/action.h`.
-/

namespace PacketReplay

open Lib

inductive ActionType : Type
  | connect
  | send
  | recv
  | close
  deriving DecidableEq, Repr

/-- A token to substitute and the range of the data it stands at. -/
structure SubToken : Type where
  token : Bytes
  beginIdx : Nat
  endIdx : Nat
  deriving DecidableEq, Repr

structure Action : Type where
  type : ActionType
  data : Bytes := []
  subTokens : List SubToken := []
  deriving DecidableEq, Repr

end PacketReplay
