import IronCache.Store.ZSetVal

/-!
# Replies

The values a command replies with (`ironcache-protocol/src/value.rs`, `error.rs`).
-/

namespace IronCache.Protocol

open Store

def utf8 (text : String) : Bytes := text.toList.flatMap String.utf8EncodeChar

inductive ErrorCode where
  | err
  | wrongType
  | noProto
  | noAuth
  | wrongPass
  | noPerm
  | execAbort
  | oom
  | busyKey
  | outOfRange
  | notBusy
  | moved
  | crossSlot
  | clusterDown
  | ask
  | tryAgain
  | noReplicas
  | loading
deriving DecidableEq

def ErrorCode.token : ErrorCode → Bytes
  | err => utf8 "ERR"
  | wrongType => utf8 "WRONGTYPE"
  | noProto => utf8 "NOPROTO"
  | noAuth => utf8 "NOAUTH"
  | wrongPass => utf8 "WRONGPASS"
  | noPerm => utf8 "NOPERM"
  | execAbort => utf8 "EXECABORT"
  | oom => utf8 "OOM"
  | busyKey => utf8 "BUSYKEY"
  | outOfRange => utf8 "OUTOFRANGE"
  | notBusy => utf8 "NOTBUSY"
  | moved => utf8 "MOVED"
  | crossSlot => utf8 "CROSSSLOT"
  | clusterDown => utf8 "CLUSTERDOWN"
  | ask => utf8 "ASK"
  | tryAgain => utf8 "TRYAGAIN"
  | noReplicas => utf8 "NOREPLICAS"
  | loading => utf8 "LOADING"

structure ErrorReply where
  code : ErrorCode
  message : Bytes
deriving DecidableEq

namespace ErrorReply

/-- The code and the message on one line, without its end. -/
def line (error : ErrorReply) : Bytes := 45 :: error.code.token ++ 32 :: error.message

def protocol (detail : Bytes) : ErrorReply where
  code := .err
  message := utf8 "Protocol error: " ++ detail

end ErrorReply

inductive ProtoVersion where
  | resp2
  | resp3
deriving DecidableEq

inductive Value where
  | simpleString (text : Bytes)
  | error (reply : ErrorReply)
  | integer (number : Int64)
  | bulkString (data : Option Bytes)
  | array (items : Option (List Value))
  | null
  | double (number : F64)
  | boolean (flag : Bool)
  | bigNumber (text : Bytes)
  | bulkError (reply : ErrorReply)
  | verbatimString (format : Vector UInt8 3) (data : Bytes)
  | map (pairs : List (Value × Value))
  | pairs (pairs : List (Value × Value))
  | set (items : List Value)
  | push (items : List Value)

end IronCache.Protocol
