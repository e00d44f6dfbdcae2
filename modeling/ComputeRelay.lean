import ComputeRelay.Dispatch.Settlement
import ComputeRelay.Dispatch.Absence
import ComputeRelay.Dispatch.Recovery
import ComputeRelay.Store.Reload
import ComputeRelay.Store.Jobs
import ComputeRelay.RunnerPlan.Bundle
import ComputeRelay.RunnerPlan.ResultSize
import ComputeRelay.Store.Receipts
import ComputeRelay.Store.Turns
import ComputeRelay.Dispatch.Phases
import ComputeRelay.Collection.Selection
import ComputeRelay.Store.Charged
import ComputeRelay.Runner.Log
import ComputeRelay.Dispatch.LocalBudget
import ComputeRelay.Kaggle.Pacing
import ComputeRelay.Store.Recency
import ComputeRelay.Store.Inventory
import ComputeRelay.Kaggle.Pieces
import ComputeRelay.RunnerPlan.Collisions
import ComputeRelay.Packaging.Ignore
import ComputeRelay.Packaging.Secret
import ComputeRelay.Kaggle.Staging
