import Spnr.Lib.HashMap
import Spnr.Proto.Crates

/-! The server's in-memory state and its SQLite tables. Counters that only move
by one or by a `u32` (`ctr`, tallies, impressions, redemption ids) are `Nat`;
micros are `i64` values and wrap as in a release build. -/
namespace Spnr.Server

def pricePerImpMicros : Int := 10000
def devShareNum : Int := 1
def devShareDen : Int := 2

structure DeviceRec (Key : Type) where
  pubkey : Key
  accountId : String
  chainHead : String
  ctrHead : Option Nat

inductive Kind where
  | impEarn | adSpendHouse | redeem
  deriving DecidableEq, Repr

structure LedgerEntry where
  debit : String
  credit : String
  amountMicros : Int
  kind : Kind
  reference : String
  deriving DecidableEq

structure Redemption where
  id : String
  amountMicros : Int
  rail : String
  deriving DecidableEq

structure Creative where
  id : String
  text : String
  url : String
  shortCode : String
  advertiser : String
  campaignName : String
  deriving DecidableEq

/-- The fields `load` rebuilds from the tables. -/
structure Loaded (Key : Type) where
  devices : HashMap String (DeviceRec Key)
  seenEventIds : Finset String
  ledger : List LedgerEntry
  balances : HashMap String Int
  impressions : HashMap String Nat
  clicks : Nat
  accepted : Nat
  rejected : Nat
  redemptions : List Redemption
  nextRedemptionId : Nat

/-- `AppState`: the flat primary-creative fields never change after `seeded` and
are the constants below; the connection is the `Database` beside it. -/
structure AppState (Key : Type) extends Loaded Key where
  creatives : List Creative
  adminToken : Option String

def advertiser : String := "acct:house"
def creativeUrl : String := "https://example.com/cloakpipe"

/-- The house rotation pool of `AppState::seeded`. -/
def housePool : List Creative :=
  [⟨"cr_house_1", "CloakPipe — ship privacy-safe LLM apps ↗", "https://example.com/cloakpipe",
      "AbC9", "acct:house", "House Ad — CloakPipe"⟩,
    ⟨"cr_house_2", "ctxgraph — see what your agent sees ↗", "https://example.com/ctxgraph",
      "Kp7T", "acct:house", "House Ad — ctxgraph"⟩,
    ⟨"cr_house_3", "spnr — get paid for your agent's wait time ↗", "https://example.com/spnr",
      "Zx2Q", "acct:house", "House Ad — spnr"⟩]

def balanceOf {Key : Type} (s : Loaded Key) (account : String) : Int :=
  (s.balances.lookup account).getD 0

def impressionsOf {Key : Type} (s : Loaded Key) (account : String) : Nat :=
  (s.impressions.lookup account).getD 0

/-- `total_redeemed_micros`: an `i64` sum over the cash-outs. -/
def totalRedeemedMicros {Key : Type} (s : Loaded Key) : Int :=
  s.redemptions.foldl (fun sum r => RustStd.i64 (sum + r.amountMicros)) 0

def accountOf (deviceId : String) : String := "acct:" ++ deviceId

theorem accountOf_injective {a b : String} (h : accountOf a = accountOf b) : a = b := by
  have text := congrArg String.toList h
  simp only [accountOf, String.toList_append, List.append_cancel_left_eq] at text
  exact String.toList_inj.mp text

structure DeviceRow where
  pubkeyHex : String
  accountId : String
  chainHead : String
  ctrHead : Option Nat

structure CreativeRow where
  creative : Creative
  active : Bool
  createdUnix : Int
  deriving DecidableEq

structure DeviceMetaRow where
  ip : Option String
  os : Option String
  arch : Option String
  hostname : Option String
  version : Option String
  email : Option String
  firstSeen : Int
  lastSeen : Int
  deriving DecidableEq

/-- The tables `init_schema` creates that these handlers use. A table with a
primary key is a map or keeps its rows in insertion order; `ledger` is ordered by `seq`. -/
structure Database where
  devices : HashMap String DeviceRow
  ledger : List LedgerEntry
  redemptions : List Redemption
  seenEvents : Finset String
  balances : HashMap String Int
  impressions : HashMap String Nat
  kv : HashMap String Nat
  creatives : List CreativeRow
  deviceMeta : HashMap String DeviceMetaRow

def Database.fresh : Database := ⟨∅, [], [], ∅, ∅, ∅, ∅, [], ∅⟩

end Spnr.Server
