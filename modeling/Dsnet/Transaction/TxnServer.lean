import Dsnet.Lib.Codec
import Dsnet.Lib.Handler
import Dsnet.Lib.StdSet

/-! `transaction/common/type.h` and `transaction/common/backend/txnserver.{h,cc}`: what a transaction
    protocol asks of the application it runs on. -/

namespace Dsnet.Transaction

/-- `servermode_t`. -/
inductive ServerMode where
  | normal | locking
  deriving DecidableEq, Repr

/-- `txntype_t`. -/
inductive TxnType where
  | prepare | commit | abort | indep
  deriving DecidableEq, Repr

/-- `txnarg_t`. -/
structure TxnArg where
  txnid : Nat
  type : TxnType
  deriving DecidableEq, Repr

/-- `txnret_t`. -/
structure TxnRet where
  txnid : Nat
  blocked : Bool
  commit : Bool
  unblockedTxns : StdSet Nat
  mode : ServerMode
  deriving DecidableEq

/-- `TxnServer`: an application with states `σ`. A call that does not return has stopped the process. -/
structure TxnServer (σ : Type) where
  init : σ
  invokeTransaction : String → TxnArg → Handler σ Empty (String × TxnRet)

end Dsnet.Transaction
