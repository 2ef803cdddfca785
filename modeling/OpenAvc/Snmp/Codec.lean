import OpenAvc.Snmp.Oid

/-! SNMP v2c messages: how they are built, and how they are parsed. -/

namespace Snmp

open Octets

/-- The type names of a MIB, by what they are called. -/
inductive SnmpType where
  | integer | string | null | oid | ipAddress | counter32 | gauge32 | timeticks | opaqueBytes | counter64
  | noSuchObject | noSuchInstance | endOfMibView | unsigned32
  deriving DecidableEq

/-- `TYPE_TAGS` -/
def SnmpType.tag : SnmpType → Nat
  | .integer => asn1Integer
  | .string => asn1OctetString
  | .null => asn1Null
  | .oid => asn1Oid
  | .ipAddress => 0x40
  | .counter32 => 0x41
  | .gauge32 | .unsigned32 => 0x42
  | .timeticks => 0x43
  | .opaqueBytes => 0x44
  | .counter64 => 0x46
  | .noSuchObject => 0x80
  | .noSuchInstance => 0x81
  | .endOfMibView => 0x82

/-- The tag is one of `EXCEPTION_TAGS`. -/
def SnmpType.isException (type : SnmpType) : Bool :=
  type = .noSuchObject ∨ type = .noSuchInstance ∨ type = .endOfMibView

/-- What a varbind carries. -/
inductive Value where
  | int (n : Int)
  | str (t : Text)
  | bytes (raw : List Nat)
  | none
  deriving DecidableEq

structure SnmpVarBind where
  oid : Text
  type : SnmpType
  value : Value
  deriving DecidableEq

variable (decimal : Nat → Option (Fin 10))

/-- `int(value)` -/
def Value.toInt : Value → Option Int
  | .int n => some n
  | .str t => pyInt decimal t
  | .bytes raw => readInt raw
  | .none => .none

/-- `str(value)`, but for bytes, which come out as nothing that an address or an
identifier is read from. -/
def Value.toStr : Value → Option Text
  | .int n => if (text (toString n.natAbs)).length ≤ Json.Scan.intLimit then some (intText n) else .none
  | .str t => some t
  | .bytes _ => .none
  | .none => some (text "None")

def encodeIpAddress (value : Text) : Option (List Nat) := do
  let octets ← ((Text.strip value).splitOn 46).mapM fun p => do
    let n ← pyInt decimal p
    if 0 ≤ n ∧ n < 256 then some n.toNat else none
  if octets.length = 4 then some (berEncodeTagged SnmpType.ipAddress.tag [octets]) else none

/-- A number that is not negative, under its own tag. -/
def encodeUnsigned (type : SnmpType) (value : Value) (maxBytes : Nat) : Option (List Nat) := do
  let ival ← value.toInt decimal
  if ival < 0 then none else encodeTaggedInt type.tag ival maxBytes

def encodeTypedValue (type : SnmpType) (value : Value) : Option (List Nat) :=
  match type with
  | .null => some berEncodeNull
  | .integer => (value.toInt decimal).bind berEncodeInteger
  | .string =>
    match value with
    | .bytes raw => some (berEncodeTagged asn1OctetString [raw])
    | .none => berEncodeString []
    | _ => value.toStr.bind berEncodeString
  | .oid => value.toStr.bind (berEncodeOid decimal)
  | .ipAddress => value.toStr.bind (encodeIpAddress decimal)
  | .gauge32 | .unsigned32 | .counter32 | .timeticks => encodeUnsigned decimal type value 5
  | .counter64 => encodeUnsigned decimal type value 9
  | .opaqueBytes | .noSuchObject | .noSuchInstance | .endOfMibView => none

/-- In a response an exception marker stands in place of a value. -/
def encodeResponseValue (type : SnmpType) (value : Value) : Option (List Nat) :=
  if type.isException then some (berEncodeTagged type.tag []) else encodeTypedValue decimal type value

def encodeVarbind (encode : SnmpType → Value → Option (List Nat)) (vb : SnmpVarBind) : Option (List Nat) := do
  let oid ← berEncodeOid decimal vb.oid
  let value ← encode vb.type vb.value
  some (berEncodeSequence [oid, value])

def snmpVersion2c : Int := 1

/-- What every packet is made of. -/
structure Pdu where
  pduType : Nat
  community : Text
  requestId : Int
  errorStatus : Int
  errorIndex : Int
  varbinds : List SnmpVarBind
  deriving DecidableEq

/-- The parts of a packet, or `none` where one of them raises. -/
def Pdu.items (encode : SnmpType → Value → Option (List Nat)) (pdu : Pdu) : Option (List (List Nat)) := do
  let varbinds ← pdu.varbinds.mapM (encodeVarbind decimal encode)
  let requestId ← berEncodeInteger pdu.requestId
  let errorStatus ← berEncodeInteger pdu.errorStatus
  let errorIndex ← berEncodeInteger pdu.errorIndex
  let version ← berEncodeInteger snmpVersion2c
  let community ← berEncodeString pdu.community
  some [version, community,
    berEncodeTagged pdu.pduType [requestId, errorStatus, errorIndex, berEncodeSequence varbinds]]

def Pdu.build (encode : SnmpType → Value → Option (List Nat)) (pdu : Pdu) : Option (List Nat) :=
  (pdu.items decimal encode).map berEncodeSequence

def snmpGetRequest : Nat := 0xa0
def snmpGetnextRequest : Nat := 0xa1
def snmpGetResponse : Nat := 0xa2
def snmpSetRequest : Nat := 0xa3
def snmpTrapV2 : Nat := 0xa7

/-- What `build_snmp_get` asks for. -/
def getPdu (community : Text) (oidStrs : List Text) (requestId : Int) : Pdu where
  pduType := snmpGetRequest
  community := community
  requestId := requestId
  errorStatus := 0
  errorIndex := 0
  varbinds := oidStrs.map fun oid => ⟨oid, .null, .none⟩

def buildSnmpGet (community : Text) (oidStrs : List Text) (requestId : Int) : Option (List Nat) :=
  (getPdu community oidStrs requestId).build decimal (encodeTypedValue decimal)

def setPdu (community : Text) (bindings : List SnmpVarBind) (requestId : Int) : Pdu where
  pduType := snmpSetRequest
  community := community
  requestId := requestId
  errorStatus := 0
  errorIndex := 0
  varbinds := bindings

def buildSnmpSet (community : Text) (bindings : List SnmpVarBind) (requestId : Int) : Option (List Nat) :=
  (setPdu community bindings requestId).build decimal (encodeTypedValue decimal)

def responsePdu (requestId : Int) (community : Text) (varbinds : List SnmpVarBind) (errorStatus errorIndex : Int) : Pdu where
  pduType := snmpGetResponse
  community := community
  requestId := requestId
  errorStatus := errorStatus
  errorIndex := errorIndex
  varbinds := varbinds

def buildSnmpResponse (requestId : Int) (community : Text) (varbinds : List SnmpVarBind) (errorStatus errorIndex : Int) :
    Option (List Nat) :=
  (responsePdu requestId community varbinds errorStatus errorIndex).build decimal (encodeResponseValue decimal)

def sysUpTimeOid : Text := text "1.3.6.1.2.1.1.3.0"
def snmpTrapOidOid : Text := text "1.3.6.1.6.3.1.1.4.1.0"

def trapPdu (community : Text) (requestId uptime : Int) (trapOid : Text) (varbinds : List SnmpVarBind) : Pdu where
  pduType := snmpTrapV2
  community := community
  requestId := requestId
  errorStatus := 0
  errorIndex := 0
  varbinds := ⟨sysUpTimeOid, .timeticks, .int uptime⟩ :: ⟨snmpTrapOidOid, .oid, .str trapOid⟩ :: varbinds

def buildSnmpTrap (community : Text) (requestId uptime : Int) (trapOid : Text) (varbinds : List SnmpVarBind) :
    Option (List Nat) :=
  (trapPdu community requestId uptime trapOid varbinds).build decimal (encodeTypedValue decimal)

/-! Parsing. -/

def hexDigit (n : Nat) : Nat :=
  if n < 10 then 48 + n else 87 + n

/-- `raw.hex()` -/
def hex (raw : List Nat) : Text :=
  raw.flatMap fun b => [hexDigit (b / 16), hexDigit (b % 16)]

/-- Whichever tag it is: the type that is read from it, if one is. -/
def typeOf (tag : Nat) : SnmpType :=
  if tag = asn1Null then .null
  else if tag = asn1Integer then .integer
  else if tag = asn1OctetString then .string
  else if tag = asn1Oid then .oid
  else if tag = 0x40 then .ipAddress
  else if tag = 0x41 then .counter32
  else if tag = 0x42 then .gauge32
  else if tag = 0x43 then .timeticks
  else if tag = 0x46 then .counter64
  else if tag = 0x80 then .noSuchObject
  else if tag = 0x81 then .noSuchInstance
  else if tag = 0x82 then .endOfMibView
  else .opaqueBytes

def decodeTypedValue (data : List Nat) (offset : Nat) : Option (SnmpType × Value × Nat) :=
  match data[offset]? with
  | none => some (.null, .none, offset)
  | some tag =>
    let type := typeOf tag
    let (length, start) := berDecodeLength data (offset + 1)
    let raw := slice data start length
    match type with
    | .noSuchObject | .noSuchInstance | .endOfMibView => some (type, .none, start + length)
    | .null => some (.null, .none, offset + 2)
    | .integer =>
      let (value, stop) := berDecodeInteger data offset
      some (.integer, .int value, stop)
    | .string =>
      let (value, stop) := berDecodeString data offset
      some (.string, .str value, stop)
    | .oid => (berDecodeOid data offset).map fun (oid, stop) => (.oid, .str oid, stop)
    | .ipAddress =>
      let shown := if raw.length = 4 then List.intercalate [46] (raw.map digits) else hex raw
      some (.ipAddress, .str shown, start + length)
    | .counter32 | .gauge32 | .unsigned32 | .timeticks | .counter64 => some (type, .int (fromBytes raw), start + length)
    | .opaqueBytes => some (.opaqueBytes, .str (hex raw), start + length)

/-- The varbinds before `stop`. Each is longer than nothing, so that as many rounds as
there is data are enough. -/
def decodeVarbinds (data : List Nat) (stop : Nat) : Nat → Nat → Option (List SnmpVarBind)
  | 0, _ => none
  | fuel + 1, offset =>
    if offset < stop ∧ data[offset]? = some asn1Sequence then
      let (_, offset) := berDecodeLength data (offset + 1)
      (berDecodeOid data offset).bind fun (oid, offset) =>
        (decodeTypedValue data offset).bind fun (type, value, offset) =>
          (decodeVarbinds data stop fuel offset).map fun varbinds =>
            if oid = [] then varbinds else ⟨oid, type, value⟩ :: varbinds
    else some []

def decodeVarbindList (data : List Nat) (offset : Nat) : Option (List SnmpVarBind) :=
  if data[offset]? = some asn1Sequence then
    let (listLen, offset) := berDecodeLength data (offset + 1)
    decodeVarbinds data (offset + listLen) (data.length + 1) offset
  else some []

/-- The walk that the parsers share: which versions and which types of PDU they let by is
their own. -/
def parsePdu (versions : Int → Bool) (pduTypes : Nat → Bool) (data : List Nat) : Option Pdu :=
  if data[0]? = some asn1Sequence then
    let (_, offset) := berDecodeLength data 1
    let (version, offset) := berDecodeInteger data offset
    if versions version then
      let (community, offset) := berDecodeString data offset
      match data[offset]? with
      | none => none
      | some pduType =>
        if pduTypes pduType then
          let (_, offset) := berDecodeLength data (offset + 1)
          let (requestId, offset) := berDecodeInteger data offset
          let (errorStatus, offset) := berDecodeInteger data offset
          let (errorIndex, offset) := berDecodeInteger data offset
          (decodeVarbindList data offset).map fun varbinds =>
            ⟨pduType, community, requestId, errorStatus, errorIndex, varbinds⟩
        else none
    else none
  else none

structure SnmpMessage where
  requestId : Int
  errorStatus : Int
  errorIndex : Int
  varbinds : List SnmpVarBind
  deriving DecidableEq

/-- A response; its version is not looked at. -/
def parseSnmpMessage (data : List Nat) : Option SnmpMessage :=
  (parsePdu (fun _ => true) (· = snmpGetResponse) data).map fun pdu =>
    ⟨pdu.requestId, pdu.errorStatus, pdu.errorIndex, pdu.varbinds⟩

structure SnmpRequest where
  pduType : Nat
  requestId : Int
  community : Text
  varbinds : List SnmpVarBind
  deriving DecidableEq

def parseSnmpRequest (data : List Nat) : Option SnmpRequest :=
  (parsePdu (· = snmpVersion2c)
    (fun tag => tag = snmpGetRequest ∨ tag = snmpGetnextRequest ∨ tag = snmpSetRequest) data).map fun pdu =>
    ⟨pdu.pduType, pdu.requestId, pdu.community, pdu.varbinds⟩

structure SnmpTrap where
  community : Text
  requestId : Int
  uptime : Option Int
  trapOid : Option Text
  varbinds : List SnmpVarBind
  deriving DecidableEq

/-- One varbind of a trap: the first of each standard one is taken out. -/
def SnmpTrap.take (trap : SnmpTrap) (vb : SnmpVarBind) : SnmpTrap :=
  if vb.oid = sysUpTimeOid ∧ trap.uptime = none then
    { trap with uptime := match vb.value with | .int n => some n | _ => none }
  else if vb.oid = snmpTrapOidOid ∧ trap.trapOid = none then
    { trap with trapOid := match vb.value with | .str t => some t | _ => none }
  else { trap with varbinds := trap.varbinds ++ [vb] }

def parseSnmpTrap (data : List Nat) : Option SnmpTrap :=
  (parsePdu (· = snmpVersion2c) (· = snmpTrapV2) data).map fun pdu =>
    pdu.varbinds.foldl SnmpTrap.take ⟨pdu.community, pdu.requestId, none, none, []⟩

end Snmp
