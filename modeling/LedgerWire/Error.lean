import LedgerWire.Address.Fault

namespace LedgerWire

inductive Shape
  | object
  | elementList
  | natural
  | hexOrNatural
  | decimalDigits
  | hexDigits
  | currencyCode
  | address
  | amount
  | issuedAmount
  | decimal
  | asset
  | tokenId
  | currencyMember
  | hashList
  | pathList
  | pathStep
  | bridge
  | channelMember
  | amountMember
deriving DecidableEq, Repr

def Shape.text : Shape → String
  | .object => "a JSON object"
  | .elementList => "an array of single-key objects"
  | .natural => "a non-negative integer"
  | .hexOrNatural => "a hex string or non-negative integer"
  | .decimalDigits => "a base-10 string"
  | .hexDigits => "a hex string"
  | .currencyCode => "a currency code or 40 hex digits"
  | .address => "an address string"
  | .amount => "a drops string or an issued-currency object"
  | .issuedAmount => "an object with value, currency and issuer"
  | .decimal => "a decimal string"
  | .asset => "an object with currency and issuer, or mpt_issuance_id"
  | .tokenId => "a hex mpt_issuance_id"
  | .currencyMember => "a currency field"
  | .hashList => "an array of 256-bit hex hashes"
  | .pathList => "an array of arrays of path steps"
  | .pathStep => "path steps as objects"
  | .bridge => "an object with door accounts and issues"
  | .channelMember => "a channel field"
  | .amountMember => "an amount field"

inductive Flaw
  | unknownName (name : String)
  | unknownCode (code : Int)
  | notNatural (number : String)
  | exceeds (value limit : Nat)
  | notShortHex (text : String)
  | notDigits (text : String)
  | tooLarge (text : String)
  | hex (flaw : Hex.Flaw) (text : String)
  | notCurrency (text : String)
  | notDrops (text : String)
  | notPlainDrops (text : String)
  | notDecimal (text : String)
  | unnormalized (mantissa : Nat)
  | nativeIssuer
  | missingIssuer
  | emptyStep
  | emptyPath
  | unknownStep (kind : UInt8)
  | missingMember (name : String)
  | bridgeTooShort
  | notObjectField (name : String)
  | elementNotObjectField (name : String)
  | memberCount (count : Nat)
  | trailingBytes (count position : Nat)
deriving DecidableEq, Repr

def Flaw.text : Flaw → String
  | .unknownName name => "unknown name " ++ name
  | .unknownCode code => "unknown code " ++ toString code
  | .notNatural number => number ++ " is not a non-negative integer"
  | .exceeds value limit => toString value ++ " exceeds " ++ toString limit
  | .notShortHex text => Text.quoted text ++ " is not 1-16 hex digits"
  | .notDigits text => Text.quoted text ++ " is not a base-10 integer"
  | .tooLarge text => Text.quoted text ++ ": number too large to fit in target type"
  | .hex flaw text => flaw.message ++ " in " ++ Text.quoted text
  | .notCurrency text =>
    Text.quoted text ++ " is neither a three-character code nor 40 hex digits"
  | .notDrops text => Text.quoted text ++ " is not a number of drops"
  | .notPlainDrops text => Text.quoted text ++ " must be written as plain integer drops"
  | .notDecimal text => Text.quoted text ++ " is not a decimal value"
  | .unnormalized mantissa => "mantissa " ++ toString mantissa ++ " is not normalized"
  | .nativeIssuer => "the native asset has no issuer"
  | .missingIssuer => "issued currencies need an issuer"
  | .emptyStep => "a path step needs an account, currency or issuer"
  | .emptyPath => "empty path"
  | .unknownStep kind => "unknown path step type 0x" ++ Hex.encode [kind]
  | .missingMember name => "missing " ++ name
  | .bridgeTooShort => "the bytes end inside a door or an issue"
  | .notObjectField name => name ++ " is not an object field"
  | .elementNotObjectField name => "element " ++ name ++ " is not an object field"
  | .memberCount count => "elements need exactly one key, found " ++ toString count
  | .trailingBytes count position =>
    toString count ++ " trailing bytes after offset " ++ toString position

inductive UnknownField
  | name (name : String)
  | header (typeCode fieldCode : UInt8)
  | escapedTypeCode (code : UInt8)
  | escapedFieldCode (code : UInt8)
  | trailingBytes (count : Nat)
deriving DecidableEq, Repr

def UnknownField.text : UnknownField → String
  | .name unknown => unknown
  | .header typeCode fieldCode =>
    "no field with type code " ++ toString typeCode.toNat ++
      " and field code " ++ toString fieldCode.toNat
  | .escapedTypeCode code => "non-canonical escaped type code " ++ toString code.toNat
  | .escapedFieldCode code => "non-canonical escaped field code " ++ toString code.toNat
  | .trailingBytes count => toString count ++ " trailing bytes after field header"

inductive DefinitionsFault
  | document
  | undeclaredType (field type : String)
  | codesOutOfRange (field : String) (typeCode nth : Int)
  | sharedHeader (first second : String) (typeCode nth : Int)
  | repeatedField (field : String)
  | sharedCode (table : String)
deriving DecidableEq, Repr

def DefinitionsFault.text : DefinitionsFault → String
  | .document => "document"
  | .undeclaredType field type => "field " ++ field ++ " references undeclared type " ++ type
  | .codesOutOfRange field typeCode nth =>
    "serialized field " ++ field ++ " has codes (" ++ toString typeCode ++ ", " ++ toString nth ++
      ") outside 1..=255"
  | .sharedHeader first second typeCode nth =>
    "fields " ++ first ++ " and " ++ second ++ " share header (" ++ toString typeCode ++ ", " ++
      toString nth ++ ")"
  | .repeatedField field => "field " ++ field ++ " is declared twice"
  | .sharedCode table => table ++ ": duplicate code"

inductive Overflow
  | negativeDrops (text : String)
  | drops (text : String)
  | issued (text : String)
  | number (text : String)
deriving DecidableEq, Repr

def Overflow.text : Overflow → String
  | .negativeDrops text => text ++ " is below zero drops"
  | .drops text => text ++ " exceeds 100000000000000000 drops"
  | .issued text => text ++ " exceeds the largest issued amount"
  | .number text => text ++ " exceeds the largest Number"

inductive Imprecision
  | fractionalDrops (text : String)
  | digits (type : String) (count : Nat)
  | issued (text : String)
deriving DecidableEq, Repr

def Imprecision.text : Imprecision → String
  | .fractionalDrops text => text ++ " has fractional drops"
  | .digits type count =>
    type ++ " holds at most 16 significant digits, got " ++ toString count
  | .issued text => text ++ " is smaller than the smallest issued amount"

inductive LengthFlaw
  | reserved (first : UInt8)
  | tooLong (length : Nat)
deriving DecidableEq, Repr

def maxPrefixedLength : Nat := 918744

def LengthFlaw.text : LengthFlaw → String
  | .reserved first => "reserved first byte 0x" ++ Hex.encode [first]
  | .tooLong length => "length " ++ toString length ++ " exceeds " ++ toString maxPrefixedLength

inductive Error
  | wrongShape (type : String) (expected : Shape)
  | malformed (type : String) (flaw : Flaw)
  | wrongLength (type : String) (expected actual : Nat)
  | unknownField (cause : UnknownField)
  | unsupportedType (field type : String)
  | definitions (fault : DefinitionsFault)
  | overflow (cause : Overflow)
  | imprecise (cause : Imprecision)
  | address (fault : Address.Fault)
  | tagConflict (field : String) (tag : UInt32) (tagField explicit : String)
  | tagNotAllowed (field : String)
  | underrun (offset needed remaining : Nat)
  | nestingTooDeep (type : String) (limit : Nat)
  | lengthPrefix (flaw : LengthFlaw)
  | signingKeyNotEmpty
  | hexInput (flaw : Hex.Flaw)
deriving DecidableEq, Repr

/-- A failed checksum is named without its address. -/
def Error.message : Error → String
  | .wrongShape type expected => type ++ " expects " ++ expected.text
  | .malformed type flaw => "invalid " ++ type ++ " value: " ++ flaw.text
  | .wrongLength type expected actual =>
    type ++ " requires " ++ toString expected ++ " bytes, got " ++ toString actual
  | .unknownField cause => "unknown field: " ++ cause.text
  | .unsupportedType field type =>
    "field " ++ field ++ " uses unsupported wire type " ++ type
  | .definitions fault => "malformed definitions: " ++ fault.text
  | .overflow cause => "amount overflow: " ++ cause.text
  | .imprecise cause => "amount precision: " ++ cause.text
  | .address .checksum => "checksum mismatch in base58 address"
  | .address fault => "address codec: " ++ fault.message
  | .tagConflict field tag tagField explicit =>
    field ++ " carries tag " ++ toString tag.toNat ++ " but " ++ tagField ++ " is " ++ explicit
  | .tagNotAllowed field => field ++ " cannot hold a tagged X-address"
  | .underrun offset needed remaining =>
    "buffer underrun at offset " ++ toString offset ++ ": need " ++ toString needed ++
      " bytes, " ++ toString remaining ++ " remaining"
  | .nestingTooDeep type limit =>
    type ++ " nested deeper than " ++ toString limit ++ " levels"
  | .lengthPrefix flaw => "invalid length prefix: " ++ flaw.text
  | .signingKeyNotEmpty => "SigningPubKey must be present and empty when multisigning"
  | .hexInput flaw => "invalid hex input: " ++ flaw.message

end LedgerWire
