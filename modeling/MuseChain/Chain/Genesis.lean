/-
  File:      MuseChain/Chain/Genesis.lean
  Subject:   init_genesis, and the node that starts from it.

  Of the genesis state, what `init_genesis` reads. `MUSE_INIT_PUBLIC_KEY` is a field of it here.
-/
import MuseChain.Chain.Node

namespace MuseChain

structure InitialAccount where
  name : String
  ownerKey : PublicKey
  activeKey : PublicKey := 0

structure InitialAsset where
  symbol : String
  issuerName : String
  description : String
  maxSupply : Int

structure InitialBalance where
  owner : Digest
  amount : Int

structure InitialVestingBalance where
  owner : Nat
  amount : Int

structure GenesisState where
  initPublicKey : PublicKey
  initSupply : Int := 0
  initialAccounts : List InitialAccount := []
  initialAssets : List InitialAsset := []
  initialBalances : List InitialBalance := []
  initialVestingBalances : List InitialVestingBalance := []

/-! ## 1. The objects of the genesis -/

/-- `authority( 1, key, 1 )`. -/
def keyAuthorityOf (key : PublicKey) : Authority := ⟨1, [], [(key, 1)]⟩

def initAccounts (g : GenesisState) : Act 0 Unit := do
  let closed : Authority := ⟨1, [], []⟩
  let _ ← Action.create (S := chainSchema) Kind.account
    { name := minerAccount, owner := closed, active := closed : Account }
  let _ ← Action.create (S := chainSchema) Kind.account
    { name := nullAccount, owner := closed, active := closed : Account }
  let _ ← Action.create (S := chainSchema) Kind.account { name := tempAccount : Account }
  let key := keyAuthorityOf g.initPublicKey
  let _ ← Action.create (S := chainSchema) Kind.account
    { name := initMinerName, owner := key, active := key, basic := key,
      memoKey := g.initPublicKey, balance := Asset.muse g.initSupply : Account }
  let _ ← Action.create (S := chainSchema) Kind.witness
    { owner := initMinerName, signingKey := g.initPublicKey : Witness }
  pure ()

def coreAsset (symbol description : String) : AssetObject :=
  { currentSupply := 0, symbolString := symbol, precision := 6, issuer := 0,
    options := { description := description } }

def initGlobals (g : GenesisState) : Act 0 Unit := do
  let _ ← Action.create (S := chainSchema) Kind.dynamicGlobalProperty
    { currentWitness := initMinerName
      time := genesisTime
      recentSlotsFilled := 2 ^ 128 - 1
      participationCount := 128
      currentSupply := Asset.muse g.initSupply
      virtualSupply := Asset.muse g.initSupply
      maximumBlockSize := maxBlockSize : DynamicGlobalProperty }
  let _ ← Action.create (S := chainSchema) Kind.asset (coreAsset "MUSE" "MUSE Core asset")
  let _ ← Action.create (S := chainSchema) Kind.asset (coreAsset "VEST" "MUSE Power asset")
  let _ ← Action.create (S := chainSchema) Kind.asset (coreAsset "MBD" "MUSE backed dollars")
  let _ ← Action.create (S := chainSchema) Kind.feedHistory ({} : FeedHistory)
  let _ ← Action.create (S := chainSchema) Kind.hardforkProperty
    { processedHardforks := [genesisTime] : HardforkProperty }
  let _ ← Action.create (S := chainSchema) Kind.witnessSchedule
    { currentShuffledWitnesses := [initMinerName] : WitnessSchedule }
  pure ()

section

variable [Fc]

def importAccount (a : InitialAccount) : Act 0 Unit :=
  let owner := keyAuthorityOf a.ownerKey
  let active := if a.activeKey = 0 then owner else keyAuthorityOf a.activeKey
  accountCreate
    { fee := Asset.muse 0, creator := tempAccount, newAccountName := a.name, owner := owner,
      active := active, basic := active,
      memoKey := if a.activeKey = 0 then a.ownerKey else a.activeKey, jsonMetadata := "" }

def importBalance (b : InitialBalance) : Act 0 Unit := do
  let _ ← Action.create (S := chainSchema) Kind.balance
    { owner := b.owner, balance := Asset.muse b.amount, lastClaimDate := 0 : Balance }
  modifyDgp (fun p => p.currentSupply.add (Asset.muse b.amount))
    fun p x => { p with currentSupply := x, virtualSupply := x }
  changeAssetSupply museSymbol b.amount

def importVesting (v : InitialVestingBalance) : Act 0 Unit := do
  let _ ← getAccount v.owner
  Action.modifyWith (S := chainSchema) Kind.account v.owner
    (fun a : Account => a.vestingShares.add (Asset.vests v.amount))
    fun (a : Account) x => { a with vestingShares := x }
  modifyDgp (fun p => p.totalVestingShares.add (Asset.vests v.amount))
    fun p x => { p with totalVestingShares := x }

/-- `init_genesis`, from the block summaries on. -/
def initGenesis (g : GenesisState) : Act 0 Unit := do
  initAccounts g
  initGlobals g
  Action.forEach g.initialAccounts importAccount
  Action.forEach g.initialAssets fun a => do
    let issuer ← getAccountId a.issuerName
    let _ ← Action.create (S := chainSchema) Kind.asset
      { currentSupply := 0, symbolString := a.symbol, precision := 6, issuer := issuer,
        options := { maxSupply := a.maxSupply, flags := 0x40, description := a.description } :
          AssetObject }
    pure ()
  Action.forEach g.initialBalances importBalance
  Action.forEach g.initialVestingBalances importVesting

/-! ## 2. The first node -/

/-- The indexes after `bsi.resize( 0xffff + 1 )`. The one block summary that is created after it
is the first of these again; the next id, which nothing asks for later, is past them here. -/
def emptyStore : Store chainSchema where
  table
    | .blockSummary => ⟨65536, FMap.const 65536 {}⟩
    | _ => ⟨0, FMap.empty⟩
  unique := by
    intro k i j a b _ ha _
    cases k with
    | blockSummary => rfl
    | _ => cases ha

omit [Fc] in
theorem emptyStore_fresh : emptyStore.Fresh := by
  intro k i a h
  cases k with
  | blockSummary => exact FMap.lt_of_get_const h
  | _ => cases h

/-- The database that `init_genesis` fills, without undo. -/
abbrev emptyDatabase : Database chainSchema :=
  ⟨emptyStore, [], 0, true, 256, false, ⟨Fc.walk, Fc.walk_perm⟩⟩

/-- A node right after `init_genesis`, which runs without the undo database. -/
def Node.genesis (g : GenesisState) : Node where
  db := { ((initGenesis g).run emptyDatabase).db with disabled := false }
  forkDb := ForkDb.empty
  log := FMap.empty
  pendingTx := []
  poppedTx := []
  pendingSession := none
  checkpoints := []

theorem Node.genesis_store (g : GenesisState) :
    (Node.genesis g).db.store = ((initGenesis g).run emptyDatabase).db.store := by
  unfold Node.genesis
  rfl

/-- The ids of the genesis are the ones that were handed out. -/
theorem Node.genesis_fresh {g : GenesisState} (hb : (Node.genesis g).db.broken = false) :
    (Node.genesis g).db.store.Fresh := by
  unfold Node.genesis at hb ⊢
  have hholds : Holds 0 emptyDatabase ((initGenesis g).run emptyDatabase).db :=
    (initGenesis g).holds emptyDatabase
  obtain ⟨_, _, hkept⟩ := hholds hb
  have hroom : 0 ≤ emptyDatabase.maxSize := Nat.zero_le _
  exact (hkept hroom emptyStore_fresh).fresh

end

/-! ## 3. A small chain to run -/

/-- Functions that stand for the ones of fc: hashes without collisions on the values below, every
text in order, a signature that names its key. -/
@[reducible] def sampleFc : Fc where
  isUtf8 _ := true
  jsonValid _ := true
  jsonValidBrokenNul _ := true
  headerHash b := b.timestamp * 1000003 + b.previous.hash % 1000003 + b.transactionMerkleRoot
  signee b := some b.witnessSignature
  trxId t := t.expiration
  signatureKeys t := some t.signatures
  trxPackSize _ := 100
  blockPackSize _ := 200
  merkleDigest t := t.expiration
  hashPair a b := a + 3 * b
  checksum a := a + 1
  idPrefix i := i.hash
  addresses k := [k]
  publicKey k := k
  sign k _ := k
  walk l := l
  walk_perm l := .refl l

def sampleGenesis : GenesisState := { initPublicKey := 7, initSupply := 1000000 }

/-- The header of an empty block of the init miner in a slot after the genesis. -/
def sampleHeader (previous : BlockId) (slot : Nat) : SignedBlockHeader where
  previous := previous
  timestamp := genesisTime + 3 * slot
  witness := initMinerName
  transactionMerkleRoot := 0
  extensions := []
  witnessSignature := 7

end MuseChain
