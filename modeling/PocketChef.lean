import PocketChef.Library.Reactive
import PocketChef.Library.SwiftArray
import PocketChef.Library.Cursor
import PocketChef.Library.Issuing
import PocketChef.Library.KeyedTree
import PocketChef.Watch.InterfaceController
import PocketChef.Watch.TapSafety
import PocketChef.Watch.StepOrder
import PocketChef.Firebase.KeyOrder
import PocketChef.Firebase.FValidation
import PocketChef.Firebase.Database
import PocketChef.SavedLists.Node
import PocketChef.Firebase.Auth
import PocketChef.Library.ObjectStore
import PocketChef.SavedLists.FrequentListViewController
import PocketChef.Shopping.ItemToBuy
import PocketChef.Shopping.UITableView
import PocketChef.Shopping.ShoppingViewController
import PocketChef.SavedLists.Editing
import PocketChef.Shopping.CheckedRows
import PocketChef.Phone.InstructionsViewController
import PocketChef.Shopping.Mirror
import PocketChef.Phone.Agreement
import PocketChef.Recipes.RecipeCard
import PocketChef.Recipes.RecipeDetailViewController
import PocketChef.Recipes.Favourites
import PocketChef.Recipes.HandOver
import PocketChef.Accounts.Confinement
import PocketChef.Phone.Browsing
import PocketChef.Accounts.Handshake
import PocketChef.Shopping.OwnRecord
import PocketChef.Shopping.FailedCalls
import PocketChef.Shopping.RowCounts
import PocketChef.Library.Json
import PocketChef.Network.Reply
import PocketChef.Network.RecipeLoaders
import PocketChef.Library.InFlight
import PocketChef.Recipes.LatestSearch
import PocketChef.Network.IngredientLoaders
import PocketChef.Network.InstructionTableViewController
import PocketChef.Network.LoadersReturn
import PocketChef.Network.StepsTrace
import PocketChef.Startup.CoreDataScreens
import PocketChef.Library.RecordNode
import PocketChef.Recipes.FavouritesCodec
import PocketChef.Network.SearchArrays
import PocketChef.Network.RecipeFormat
import PocketChef.Library.UrlQuery
import PocketChef.Network.SearchRequest
import PocketChef.Network.NutritionFacts
import PocketChef.Library.StoredInteger
import PocketChef.Network.StoredIds
import PocketChef.Library.Retransmission
import PocketChef.Library.OverwriteLog
import PocketChef.Library.NumberedQueue
import PocketChef.Firebase.FPersistentConnection
import PocketChef.Firebase.Exchange
import PocketChef.Firebase.Steps
import PocketChef.Firebase.Reads
import PocketChef.Firebase.Requests
import PocketChef.Firebase.Ledger
import PocketChef.Firebase.Restoring
import PocketChef.Firebase.Delivery
import PocketChef.Firebase.Outcome
import PocketChef.SavedLists.AcrossConnections
import PocketChef.Library.SortedAssoc
import PocketChef.Firebase.FLLRBNode
import PocketChef.Firebase.FLLRBBalance
import PocketChef.Firebase.FLLRBRemove
import PocketChef.Firebase.FLLRBRemoveKey
import PocketChef.Firebase.FTreeSortedDictionary
import PocketChef.Firebase.FTreeSortedDictionaryEnumerator
import PocketChef.Firebase.TreeBuilder
import PocketChef.Firebase.FArraySortedDictionary
import PocketChef.Firebase.FImmutableSortedDictionary
import PocketChef.Firebase.KeyEquality
import PocketChef.Firebase.DictionaryRuns
import PocketChef.Library.PathStrip
import PocketChef.Firebase.FNode
import PocketChef.Firebase.NodeLeaves
import PocketChef.Firebase.FSnapshotUtilities
import PocketChef.Firebase.NodeFormat
import PocketChef.Firebase.NodeOrder
import PocketChef.Firebase.NodeRoundTrip
import PocketChef.Library.PendingOverwrites
import PocketChef.Firebase.FImmutableTree
import PocketChef.Firebase.FCompoundWrite
import PocketChef.Firebase.FWriteTree
import PocketChef.Firebase.WriteNodes
import PocketChef.Firebase.FRepo
import PocketChef.Firebase.PendingWrites
import PocketChef.Firebase.LocalReads
