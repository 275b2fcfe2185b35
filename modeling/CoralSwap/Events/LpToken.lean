import CoralSwap.Lib.Journal
import CoralSwap.LpToken

/-!
# The events of the LP token

One event for each call that moves shares, writes an allowance or is the admin's, under the topics of the
source. A transfer of nothing and a permit publish no event, and a transfer or a burn by a spender publishes
what the holder's own would.
-/

namespace CoralSwap

open Host Host.Call

inductive LpTokenEvent (Address : Type) where
  /-- `adm_xfer` -/
  | adminTransferred (oldAdmin newAdmin : Address)
  | paused (admin : Address)
  | unpaused (admin : Address)
  | approve (owner spender : Address) (amount : ℤ) (expirationLedger : ℕ)
  | transfer (src dst : Address) (amount : ℤ)
  | mint (admin dst : Address) (amount : ℤ)
  | burn (src : Address) (amount : ℤ)
  deriving DecidableEq, Repr

namespace LpToken

variable {Address : Type} [DecidableEq Address]

omit [DecidableEq Address] in
/-- An event that names the admin. An accepted call of the admin's has found one. -/
def adminEvent (t : LpToken Address) (event : Address → LpTokenEvent Address) : List (LpTokenEvent Address) :=
  t.admin.toList.map event

omit [DecidableEq Address] in
/-- `transfer_internal` returns before it publishes where there is nothing to move. -/
def transferEvents (src dst : Address) (amount : ℤ) : List (LpTokenEvent Address) :=
  if amount = 0 then [] else [.transfer src dst amount]

def publish (t : LpToken Address) :
    LpEnv Address × Op Address → Call LpTokenError (LpToken Address × List (LpTokenEvent Address))
  | (env, .mint dst amount) => (mint env t dst amount).publishing (t.adminEvent (.mint · dst amount))
  | (env, .burn src amount) => (burn env t src amount).publishing [.burn src amount]
  | (env, .burnFrom spender src amount) => (burnFrom env t spender src amount).publishing [.burn src amount]
  | (env, .transfer src dst amount) =>
      (transfer env t src dst amount).publishing (transferEvents src dst amount)
  | (env, .transferFrom spender src dst amount) =>
      (transferFrom env t spender src dst amount).publishing (transferEvents src dst amount)
  | (env, .approve owner spender amount expirationLedger) =>
      (approve env t owner spender amount expirationLedger).publishing
        [.approve owner spender amount expirationLedger]
  | (env, .permit owner spender amount deadline signature) =>
      (permit env t owner spender amount deadline signature).publishing []
  | (env, .pause) => (pause env t).publishing (t.adminEvent .paused)
  | (env, .unpause) => (unpause env t).publishing (t.adminEvent .unpaused)
  | (env, .adminTransfer newAdmin) =>
      (adminTransfer env t newAdmin).publishing (t.adminEvent (.adminTransferred · newAdmin))

def journal : Journal (@machine Address _) (LpTokenEvent Address) where
  publish := publish
  exec_eq := by
    rintro t ⟨env, op⟩
    cases op <;> exact fst_publishing _ _

end LpToken

/-! ### Readers -/

/-- What a reader of the events can keep of the token. -/
structure LpIndex (Address : Type) where
  admin : Option Address
  paused : Bool
  totalSupply : ℤ
  balance : Address → ℤ

namespace LpIndex

variable {Address : Type} [DecidableEq Address] (index : LpIndex Address)

omit [DecidableEq Address] in
def ofToken (t : LpToken Address) : LpIndex Address := ⟨t.admin, t.paused, t.totalSupply, t.balance⟩

def credit (who : Address) (amount : ℤ) : LpIndex Address :=
  { index with balance := Function.update index.balance who (index.balance who + amount) }

def read : LpTokenEvent Address → LpIndex Address
  | .adminTransferred _ newAdmin => { index with admin := some newAdmin }
  | .paused _ => { index with paused := true }
  | .unpaused _ => { index with paused := false }
  | .approve .. => index
  | .transfer src dst amount => (index.credit src (-amount)).credit dst amount
  | .mint _ dst amount => { index.credit dst amount with totalSupply := index.totalSupply + amount }
  | .burn src amount => { index.credit src (-amount) with totalSupply := index.totalSupply - amount }

end LpIndex

end CoralSwap
