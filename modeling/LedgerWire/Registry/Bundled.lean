import LedgerWire.Registry.Basic

namespace LedgerWire.Registry.Bundled

def variableLengthTypes : List String := ["Blob", "AccountID", "Vector256"]

def entry (serialized signing : Bool) (name type : String) (nth : Int32) : String × FieldInfo :=
  (name, { nth, variableLength := variableLengthTypes.contains type, serialized, signing, type })

def signed : String → String → Int32 → String × FieldInfo := entry true true

def unsigned : String → String → Int32 → String × FieldInfo := entry true false

/-- A whole ledger object as a field: not on the wire. -/
def container : String → String → Int32 → String × FieldInfo := entry false true

/-- A field of answers about the ledger only: not on the wire. -/
def virtual : String → String → Int32 → String × FieldInfo := entry false false

def types : Codes :=
  [("Done", -1), ("Unknown", -2), ("NotPresent", 0), ("UInt16", 1), ("UInt32", 2), ("UInt64", 3),
   ("Hash128", 4), ("Hash256", 5), ("Amount", 6), ("Blob", 7), ("AccountID", 8), ("Number", 9),
   ("STObject", 14), ("STArray", 15), ("UInt8", 16), ("Hash160", 17), ("PathSet", 18),
   ("Vector256", 19), ("UInt96", 20), ("Hash192", 21), ("UInt384", 22), ("UInt512", 23),
   ("Issue", 24), ("XChainBridge", 25), ("Currency", 26), ("Transaction", 10001),
   ("LedgerEntry", 10002), ("Validation", 10003), ("Metadata", 10004)]

def fields : List (String × FieldInfo) :=
  [virtual "Generic" "Unknown" 0,
   virtual "Invalid" "Unknown" (-1),
   signed "ObjectEndMarker" "STObject" 1,
   signed "ArrayEndMarker" "STArray" 1,
   virtual "hash" "Hash256" 257,
   virtual "index" "Hash256" 258,
   virtual "taker_gets_funded" "Amount" 258,
   virtual "taker_pays_funded" "Amount" 259,
   container "LedgerEntry" "LedgerEntry" 257,
   container "Transaction" "Transaction" 257,
   container "Validation" "Validation" 257,
   container "Metadata" "Metadata" 257,
   signed "CloseResolution" "UInt8" 1,
   signed "Method" "UInt8" 2,
   signed "TransactionResult" "UInt8" 3,
   signed "Scale" "UInt8" 4,
   signed "AssetScale" "UInt8" 5,
   signed "TickSize" "UInt8" 16,
   signed "UNLModifyDisabling" "UInt8" 17,
   signed "HookResult" "UInt8" 18,
   signed "WasLockingChainSend" "UInt8" 19,
   signed "LedgerEntryType" "UInt16" 1,
   signed "TransactionType" "UInt16" 2,
   signed "SignerWeight" "UInt16" 3,
   signed "TransferFee" "UInt16" 4,
   signed "TradingFee" "UInt16" 5,
   signed "DiscountedFee" "UInt16" 6,
   signed "Version" "UInt16" 16,
   signed "HookStateChangeCount" "UInt16" 17,
   signed "HookEmitCount" "UInt16" 18,
   signed "HookExecutionIndex" "UInt16" 19,
   signed "HookApiVersion" "UInt16" 20,
   signed "LedgerFixType" "UInt16" 21,
   signed "NetworkID" "UInt32" 1,
   signed "Flags" "UInt32" 2,
   signed "SourceTag" "UInt32" 3,
   signed "Sequence" "UInt32" 4,
   signed "PreviousTxnLgrSeq" "UInt32" 5,
   signed "LedgerSequence" "UInt32" 6,
   signed "CloseTime" "UInt32" 7,
   signed "ParentCloseTime" "UInt32" 8,
   signed "SigningTime" "UInt32" 9,
   signed "Expiration" "UInt32" 10,
   signed "TransferRate" "UInt32" 11,
   signed "WalletSize" "UInt32" 12,
   signed "OwnerCount" "UInt32" 13,
   signed "DestinationTag" "UInt32" 14,
   signed "LastUpdateTime" "UInt32" 15,
   signed "HighQualityIn" "UInt32" 16,
   signed "HighQualityOut" "UInt32" 17,
   signed "LowQualityIn" "UInt32" 18,
   signed "LowQualityOut" "UInt32" 19,
   signed "QualityIn" "UInt32" 20,
   signed "QualityOut" "UInt32" 21,
   signed "StampEscrow" "UInt32" 22,
   signed "BondAmount" "UInt32" 23,
   signed "LoadFee" "UInt32" 24,
   signed "OfferSequence" "UInt32" 25,
   signed "FirstLedgerSequence" "UInt32" 26,
   signed "LastLedgerSequence" "UInt32" 27,
   signed "TransactionIndex" "UInt32" 28,
   signed "OperationLimit" "UInt32" 29,
   signed "ReferenceFeeUnits" "UInt32" 30,
   signed "ReserveBase" "UInt32" 31,
   signed "ReserveIncrement" "UInt32" 32,
   signed "SetFlag" "UInt32" 33,
   signed "ClearFlag" "UInt32" 34,
   signed "SignerQuorum" "UInt32" 35,
   signed "CancelAfter" "UInt32" 36,
   signed "FinishAfter" "UInt32" 37,
   signed "SignerListID" "UInt32" 38,
   signed "SettleDelay" "UInt32" 39,
   signed "TicketCount" "UInt32" 40,
   signed "TicketSequence" "UInt32" 41,
   signed "NFTokenTaxon" "UInt32" 42,
   signed "MintedNFTokens" "UInt32" 43,
   signed "BurnedNFTokens" "UInt32" 44,
   signed "HookStateCount" "UInt32" 45,
   signed "EmitGeneration" "UInt32" 46,
   signed "VoteWeight" "UInt32" 48,
   signed "FirstNFTokenSequence" "UInt32" 50,
   signed "OracleDocumentID" "UInt32" 51,
   signed "PermissionValue" "UInt32" 52,
   signed "IndexNext" "UInt64" 1,
   signed "IndexPrevious" "UInt64" 2,
   signed "BookNode" "UInt64" 3,
   signed "OwnerNode" "UInt64" 4,
   signed "BaseFee" "UInt64" 5,
   signed "ExchangeRate" "UInt64" 6,
   signed "LowNode" "UInt64" 7,
   signed "HighNode" "UInt64" 8,
   signed "DestinationNode" "UInt64" 9,
   signed "Cookie" "UInt64" 10,
   signed "ServerVersion" "UInt64" 11,
   signed "NFTokenOfferNode" "UInt64" 12,
   signed "EmitBurden" "UInt64" 13,
   signed "HookOn" "UInt64" 16,
   signed "HookInstructionCount" "UInt64" 17,
   signed "HookReturnCode" "UInt64" 18,
   signed "ReferenceCount" "UInt64" 19,
   signed "XChainClaimID" "UInt64" 20,
   signed "XChainAccountCreateCount" "UInt64" 21,
   signed "XChainAccountClaimCount" "UInt64" 22,
   signed "AssetPrice" "UInt64" 23,
   signed "MaximumAmount" "UInt64" 24,
   signed "OutstandingAmount" "UInt64" 25,
   signed "MPTAmount" "UInt64" 26,
   signed "IssuerNode" "UInt64" 27,
   signed "SubjectNode" "UInt64" 28,
   signed "LockedAmount" "UInt64" 29,
   signed "EmailHash" "Hash128" 1,
   signed "TakerPaysCurrency" "Hash160" 1,
   signed "TakerPaysIssuer" "Hash160" 2,
   signed "TakerGetsCurrency" "Hash160" 3,
   signed "TakerGetsIssuer" "Hash160" 4,
   signed "MPTokenIssuanceID" "Hash192" 1,
   signed "LedgerHash" "Hash256" 1,
   signed "ParentHash" "Hash256" 2,
   signed "TransactionHash" "Hash256" 3,
   signed "AccountHash" "Hash256" 4,
   signed "PreviousTxnID" "Hash256" 5,
   signed "LedgerIndex" "Hash256" 6,
   signed "WalletLocator" "Hash256" 7,
   signed "RootIndex" "Hash256" 8,
   signed "AccountTxnID" "Hash256" 9,
   signed "NFTokenID" "Hash256" 10,
   signed "EmitParentTxnID" "Hash256" 11,
   signed "EmitNonce" "Hash256" 12,
   signed "EmitHookHash" "Hash256" 13,
   signed "AMMID" "Hash256" 14,
   signed "BookDirectory" "Hash256" 16,
   signed "InvoiceID" "Hash256" 17,
   signed "Nickname" "Hash256" 18,
   signed "Amendment" "Hash256" 19,
   signed "Digest" "Hash256" 21,
   signed "Channel" "Hash256" 22,
   signed "ConsensusHash" "Hash256" 23,
   signed "CheckID" "Hash256" 24,
   signed "ValidatedHash" "Hash256" 25,
   signed "PreviousPageMin" "Hash256" 26,
   signed "NextPageMin" "Hash256" 27,
   signed "NFTokenBuyOffer" "Hash256" 28,
   signed "NFTokenSellOffer" "Hash256" 29,
   signed "HookStateKey" "Hash256" 30,
   signed "HookHash" "Hash256" 31,
   signed "HookNamespace" "Hash256" 32,
   signed "HookSetTxnID" "Hash256" 33,
   signed "DomainID" "Hash256" 34,
   signed "AssetsAvailable" "Number" 2,
   signed "AssetsMaximum" "Number" 3,
   signed "AssetsTotal" "Number" 4,
   signed "LossUnrealized" "Number" 5,
   signed "Amount" "Amount" 1,
   signed "Balance" "Amount" 2,
   signed "LimitAmount" "Amount" 3,
   signed "TakerPays" "Amount" 4,
   signed "TakerGets" "Amount" 5,
   signed "LowLimit" "Amount" 6,
   signed "HighLimit" "Amount" 7,
   signed "Fee" "Amount" 8,
   signed "SendMax" "Amount" 9,
   signed "DeliverMin" "Amount" 10,
   signed "Amount2" "Amount" 11,
   signed "BidMin" "Amount" 12,
   signed "BidMax" "Amount" 13,
   signed "MinimumOffer" "Amount" 16,
   signed "RippleEscrow" "Amount" 17,
   signed "DeliveredAmount" "Amount" 18,
   signed "NFTokenBrokerFee" "Amount" 19,
   signed "BaseFeeDrops" "Amount" 22,
   signed "ReserveBaseDrops" "Amount" 23,
   signed "ReserveIncrementDrops" "Amount" 24,
   signed "LPTokenOut" "Amount" 25,
   signed "LPTokenIn" "Amount" 26,
   signed "EPrice" "Amount" 27,
   signed "Price" "Amount" 28,
   signed "SignatureReward" "Amount" 29,
   signed "MinAccountCreateAmount" "Amount" 30,
   signed "LPTokenBalance" "Amount" 31,
   signed "PublicKey" "Blob" 1,
   signed "MessageKey" "Blob" 2,
   signed "SigningPubKey" "Blob" 3,
   unsigned "TxnSignature" "Blob" 4,
   signed "URI" "Blob" 5,
   unsigned "Signature" "Blob" 6,
   signed "Domain" "Blob" 7,
   signed "FundCode" "Blob" 8,
   signed "RemoveCode" "Blob" 9,
   signed "ExpireCode" "Blob" 10,
   signed "CreateCode" "Blob" 11,
   signed "MemoType" "Blob" 12,
   signed "MemoData" "Blob" 13,
   signed "MemoFormat" "Blob" 14,
   signed "Fulfillment" "Blob" 16,
   signed "Condition" "Blob" 17,
   unsigned "MasterSignature" "Blob" 18,
   signed "UNLModifyValidator" "Blob" 19,
   signed "ValidatorToDisable" "Blob" 20,
   signed "ValidatorToReEnable" "Blob" 21,
   signed "HookStateData" "Blob" 22,
   signed "HookReturnString" "Blob" 23,
   signed "HookParameterName" "Blob" 24,
   signed "HookParameterValue" "Blob" 25,
   signed "DIDDocument" "Blob" 26,
   signed "Data" "Blob" 27,
   signed "AssetClass" "Blob" 28,
   signed "Provider" "Blob" 29,
   signed "MPTokenMetadata" "Blob" 30,
   signed "CredentialType" "Blob" 31,
   signed "Account" "AccountID" 1,
   signed "Owner" "AccountID" 2,
   signed "Destination" "AccountID" 3,
   signed "Issuer" "AccountID" 4,
   signed "Authorize" "AccountID" 5,
   signed "Unauthorize" "AccountID" 6,
   signed "RegularKey" "AccountID" 8,
   signed "NFTokenMinter" "AccountID" 9,
   signed "EmitCallback" "AccountID" 10,
   signed "Holder" "AccountID" 11,
   signed "HookAccount" "AccountID" 16,
   signed "OtherChainSource" "AccountID" 18,
   signed "OtherChainDestination" "AccountID" 19,
   signed "AttestationSignerAccount" "AccountID" 20,
   signed "AttestationRewardAccount" "AccountID" 21,
   signed "LockingChainDoor" "AccountID" 22,
   signed "IssuingChainDoor" "AccountID" 23,
   signed "Subject" "AccountID" 24,
   signed "TransactionMetaData" "STObject" 2,
   signed "CreatedNode" "STObject" 3,
   signed "DeletedNode" "STObject" 4,
   signed "ModifiedNode" "STObject" 5,
   signed "PreviousFields" "STObject" 6,
   signed "FinalFields" "STObject" 7,
   signed "NewFields" "STObject" 8,
   signed "TemplateEntry" "STObject" 9,
   signed "Memo" "STObject" 10,
   signed "SignerEntry" "STObject" 11,
   signed "NFToken" "STObject" 12,
   signed "EmitDetails" "STObject" 13,
   signed "Hook" "STObject" 14,
   signed "Permission" "STObject" 15,
   signed "Signer" "STObject" 16,
   signed "Majority" "STObject" 18,
   signed "DisabledValidator" "STObject" 19,
   signed "EmittedTxn" "STObject" 20,
   signed "HookExecution" "STObject" 21,
   signed "HookDefinition" "STObject" 22,
   signed "HookParameter" "STObject" 23,
   signed "HookGrant" "STObject" 24,
   signed "VoteEntry" "STObject" 25,
   signed "AuctionSlot" "STObject" 26,
   signed "AuthAccount" "STObject" 27,
   signed "XChainClaimProofSig" "STObject" 28,
   signed "XChainCreateAccountProofSig" "STObject" 29,
   signed "XChainClaimAttestationCollectionElement" "STObject" 30,
   signed "XChainCreateAccountAttestationCollectionElement" "STObject" 31,
   signed "PriceData" "STObject" 32,
   signed "Credential" "STObject" 33,
   unsigned "Signers" "STArray" 3,
   signed "SignerEntries" "STArray" 4,
   signed "Template" "STArray" 5,
   signed "Necessary" "STArray" 6,
   signed "Sufficient" "STArray" 7,
   signed "AffectedNodes" "STArray" 8,
   signed "Memos" "STArray" 9,
   signed "NFTokens" "STArray" 10,
   signed "Hooks" "STArray" 11,
   signed "VoteSlots" "STArray" 12,
   signed "Majorities" "STArray" 16,
   signed "DisabledValidators" "STArray" 17,
   signed "HookExecutions" "STArray" 18,
   signed "HookParameters" "STArray" 19,
   signed "HookGrants" "STArray" 20,
   signed "XChainClaimAttestations" "STArray" 21,
   signed "XChainCreateAccountAttestations" "STArray" 22,
   signed "PriceDataSeries" "STArray" 24,
   signed "AuthAccounts" "STArray" 25,
   signed "AuthorizeCredentials" "STArray" 26,
   signed "UnauthorizeCredentials" "STArray" 27,
   signed "AcceptedCredentials" "STArray" 28,
   signed "Permissions" "STArray" 29,
   signed "Paths" "PathSet" 1,
   signed "Indexes" "Vector256" 1,
   signed "Hashes" "Vector256" 2,
   signed "Amendments" "Vector256" 3,
   signed "NFTokenOffers" "Vector256" 4,
   signed "CredentialIDs" "Vector256" 5,
   signed "LockingChainIssue" "Issue" 1,
   signed "IssuingChainIssue" "Issue" 2,
   signed "Asset" "Issue" 3,
   signed "Asset2" "Issue" 4,
   signed "XChainBridge" "XChainBridge" 1,
   signed "BaseAsset" "Currency" 1,
   signed "QuoteAsset" "Currency" 2]

def ledgerEntryTypes : Codes :=
  [("Invalid", -1), ("AccountRoot", 97), ("DirectoryNode", 100), ("RippleState", 114),
   ("Ticket", 84), ("SignerList", 83), ("Offer", 111), ("Bridge", 105), ("LedgerHashes", 104),
   ("Amendments", 102), ("XChainOwnedClaimID", 113), ("XChainOwnedCreateAccountClaimID", 116),
   ("FeeSettings", 115), ("Escrow", 117), ("PayChannel", 120), ("Check", 67),
   ("DepositPreauth", 112), ("NegativeUNL", 78), ("NFTokenPage", 80), ("NFTokenOffer", 55),
   ("AMM", 121), ("DID", 73), ("Oracle", 128), ("MPTokenIssuance", 126), ("MPToken", 127),
   ("Credential", 129), ("PermissionedDomain", 130), ("Delegate", 131)]

def transactionResults : Codes :=
  [("telLOCAL_ERROR", -399), ("telBAD_DOMAIN", -398), ("telBAD_PATH_COUNT", -397),
   ("telBAD_PUBLIC_KEY", -396), ("telFAILED_PROCESSING", -395), ("telINSUF_FEE_P", -394),
   ("telNO_DST_PARTIAL", -393), ("telCAN_NOT_QUEUE", -392), ("telCAN_NOT_QUEUE_BALANCE", -391),
   ("telCAN_NOT_QUEUE_BLOCKS", -390), ("telCAN_NOT_QUEUE_BLOCKED", -389),
   ("telCAN_NOT_QUEUE_FEE", -388), ("telCAN_NOT_QUEUE_FULL", -387), ("telWRONG_NETWORK", -386),
   ("telREQUIRES_NETWORK_ID", -385), ("telNETWORK_ID_MAKES_TX_NON_CANONICAL", -384),
   ("telENV_RPC_FAILED", -383), ("temMALFORMED", -299), ("temBAD_AMOUNT", -298),
   ("temBAD_CURRENCY", -297), ("temBAD_EXPIRATION", -296), ("temBAD_FEE", -295),
   ("temBAD_ISSUER", -294), ("temBAD_LIMIT", -293), ("temBAD_OFFER", -292), ("temBAD_PATH", -291),
   ("temBAD_PATH_LOOP", -290), ("temBAD_REGKEY", -289), ("temBAD_SEND_XRP_LIMIT", -288),
   ("temBAD_SEND_XRP_MAX", -287), ("temBAD_SEND_XRP_NO_DIRECT", -286),
   ("temBAD_SEND_XRP_PARTIAL", -285), ("temBAD_SEND_XRP_PATHS", -284), ("temBAD_SEQUENCE", -283),
   ("temBAD_SIGNATURE", -282), ("temBAD_SRC_ACCOUNT", -281), ("temBAD_TRANSFER_RATE", -280),
   ("temDST_IS_SRC", -279), ("temDST_NEEDED", -278), ("temINVALID", -277),
   ("temINVALID_FLAG", -276), ("temREDUNDANT", -275), ("temRIPPLE_EMPTY", -274),
   ("temDISABLED", -273), ("temBAD_SIGNER", -272), ("temBAD_QUORUM", -271),
   ("temBAD_WEIGHT", -270), ("temBAD_TICK_SIZE", -269), ("temINVALID_ACCOUNT_ID", -268),
   ("temCANNOT_PREAUTH_SELF", -267), ("temINVALID_COUNT", -266), ("temUNCERTAIN", -265),
   ("temUNKNOWN", -264), ("temSEQ_AND_TICKET", -263), ("temBAD_NFTOKEN_TRANSFER_FEE", -262),
   ("tefFAILURE", -199), ("tefALREADY", -198), ("tefBAD_ADD_AUTH", -197), ("tefBAD_AUTH", -196),
   ("tefBAD_LEDGER", -195), ("tefCREATED", -194), ("tefEXCEPTION", -193), ("tefINTERNAL", -192),
   ("tefNO_AUTH_REQUIRED", -191), ("tefPAST_SEQ", -190), ("tefWRONG_PRIOR", -189),
   ("tefMASTER_DISABLED", -188), ("tefMAX_LEDGER", -187), ("tefBAD_SIGNATURE", -186),
   ("tefBAD_QUORUM", -185), ("tefNOT_MULTI_SIGNING", -184), ("tefBAD_AUTH_MASTER", -183),
   ("tefINVARIANT_FAILED", -182), ("tefTOO_BIG", -181), ("tefNO_TICKET", -180),
   ("tefNFTOKEN_IS_NOT_TRANSFERABLE", -179), ("terRETRY", -99), ("terFUNDS_SPENT", -98),
   ("terINSUF_FEE_B", -97), ("terNO_ACCOUNT", -96), ("terNO_AUTH", -95), ("terNO_LINE", -94),
   ("terOWNERS", -93), ("terPRE_SEQ", -92), ("terLAST", -91), ("terNO_RIPPLE", -90),
   ("terQUEUED", -89), ("terPRE_TICKET", -88), ("terNO_AMM", -87), ("tesSUCCESS", 0),
   ("tecCLAIM", 100), ("tecPATH_PARTIAL", 101), ("tecUNFUNDED_ADD", 102),
   ("tecUNFUNDED_OFFER", 103), ("tecUNFUNDED_PAYMENT", 104), ("tecFAILED_PROCESSING", 105),
   ("tecDIR_FULL", 121), ("tecINSUF_RESERVE_LINE", 122), ("tecINSUF_RESERVE_OFFER", 123),
   ("tecNO_DST", 124), ("tecNO_DST_INSUF_XRP", 125), ("tecNO_LINE_INSUF_RESERVE", 126),
   ("tecNO_LINE_REDUNDANT", 127), ("tecPATH_DRY", 128), ("tecUNFUNDED", 129),
   ("tecNO_ALTERNATIVE_KEY", 130), ("tecNO_REGULAR_KEY", 131), ("tecOWNERS", 132),
   ("tecNO_ISSUER", 133), ("tecNO_AUTH", 134), ("tecNO_LINE", 135), ("tecINSUFF_FEE", 136),
   ("tecFROZEN", 137), ("tecNO_TARGET", 138), ("tecNO_PERMISSION", 139), ("tecNO_ENTRY", 140),
   ("tecINSUFFICIENT_RESERVE", 141), ("tecNEED_MASTER_KEY", 142), ("tecDST_TAG_NEEDED", 143),
   ("tecINTERNAL", 144), ("tecOVERSIZE", 145), ("tecCRYPTOCONDITION_ERROR", 146),
   ("tecINVARIANT_FAILED", 147), ("tecEXPIRED", 148), ("tecDUPLICATE", 149), ("tecKILLED", 150),
   ("tecHAS_OBLIGATIONS", 151), ("tecTOO_SOON", 152)]

def transactionTypes : Codes :=
  [("Invalid", -1), ("Payment", 0), ("EscrowCreate", 1), ("EscrowFinish", 2), ("AccountSet", 3),
   ("EscrowCancel", 4), ("SetRegularKey", 5), ("NickNameSet", 6), ("OfferCreate", 7),
   ("OfferCancel", 8), ("Contract", 9), ("TicketCreate", 10), ("TicketCancel", 11),
   ("SignerListSet", 12), ("PaymentChannelCreate", 13), ("PaymentChannelFund", 14),
   ("PaymentChannelClaim", 15), ("CheckCreate", 16), ("CheckCash", 17), ("CheckCancel", 18),
   ("DepositPreauth", 19), ("TrustSet", 20), ("AccountDelete", 21), ("SetHook", 22),
   ("NFTokenMint", 25), ("NFTokenBurn", 26), ("NFTokenCreateOffer", 27),
   ("NFTokenCancelOffer", 28), ("NFTokenAcceptOffer", 29), ("Clawback", 30), ("AMMClawback", 31),
   ("AMMCreate", 35), ("AMMDeposit", 36), ("AMMWithdraw", 37), ("AMMVote", 38), ("AMMBid", 39),
   ("AMMDelete", 40), ("XChainCreateClaimID", 41), ("XChainCommit", 42), ("XChainClaim", 43),
   ("XChainAccountCreateCommit", 44), ("XChainAddClaimAttestation", 45),
   ("XChainAddAccountCreateAttestation", 46), ("XChainModifyBridge", 47),
   ("XChainCreateBridge", 48), ("DIDSet", 49), ("DIDDelete", 50), ("OracleSet", 51),
   ("OracleDelete", 52), ("LedgerStateFix", 53), ("MPTokenIssuanceCreate", 54),
   ("MPTokenIssuanceDestroy", 55), ("MPTokenIssuanceSet", 56), ("MPTokenAuthorize", 57),
   ("CredentialCreate", 58), ("CredentialAccept", 59), ("CredentialDelete", 60),
   ("NFTokenModify", 61), ("PermissionedDomainSet", 62), ("PermissionedDomainDelete", 63),
   ("DelegateSet", 64), ("EnableAmendment", 100), ("SetFee", 101), ("UNLModify", 102)]

def document : Document :=
  { types, fields, ledgerEntryTypes, transactionResults, transactionTypes }

end Bundled

def empty : Registry := ⟨[], [], ⟨[]⟩, ⟨[]⟩, ⟨[]⟩, ⟨[]⟩⟩

def bundled : Registry := (ofDocument Bundled.document).toOption.getD empty

end LedgerWire.Registry
