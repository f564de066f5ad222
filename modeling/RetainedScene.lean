import RetainedScene.Number.Decimal
import RetainedScene.Geometry.Rect
import RetainedScene.Geometry.Color
import RetainedScene.Layout.Error
import RetainedScene.Layout.Tracks
import RetainedScene.Layout.Grid
import RetainedScene.Layout.Path
import RetainedScene.Item.Description
import RetainedScene.Model
import RetainedScene.Scene.Walk
import RetainedScene.Scene.Census
import RetainedScene.Scene.Survey
import RetainedScene.Scene.Arrangement
import RetainedScene.Window.Stack
import RetainedScene.Application
import RetainedScene.Logging.Filter
import RetainedScene.Gallery.Arrangement
import RetainedScene.Proofs.Scene.RootWalk
import RetainedScene.Proofs.Scene.Coverage
import RetainedScene.Proofs.Layout.Safety
import RetainedScene.Proofs.Layout.WaterFilling
import RetainedScene.Proofs.Scene.Mutation
import RetainedScene.Proofs.Scene.History
import RetainedScene.Proofs.Layout.Placement
import RetainedScene.Proofs.Layout.Ranges
import RetainedScene.Proofs.Layout.Fairness
import RetainedScene.Proofs.Layout.Acceptance
import RetainedScene.Proofs.Number.Zeros
import RetainedScene.Proofs.Layout.Axes
import RetainedScene.Proofs.Layout.CellSet
import RetainedScene.Proofs.Layout.Ordering
import RetainedScene.Proofs.Path.Search
import RetainedScene.Proofs.Path.Skipping
import RetainedScene.Proofs.Path.Closing
import RetainedScene.Proofs.Path.Fractions
import RetainedScene.Proofs.Path.Ordering
import RetainedScene.Proofs.Path.EqualWidths
import RetainedScene.Proofs.Path.FullTurn
import RetainedScene.Proofs.Number.Error
import RetainedScene.Proofs.Number.Interpolation
import RetainedScene.Proofs.Path.Ends
import RetainedScene.Proofs.Scene.Broken
import RetainedScene.Proofs.Scene.Block
import RetainedScene.Proofs.Scene.Moving
import RetainedScene.Proofs.Gallery.History
import RetainedScene.Proofs.Item.Capabilities
import RetainedScene.Proofs.Gallery.Rows
import RetainedScene.Proofs.Scene.Sights
import RetainedScene.Proofs.Gallery.Showing
import RetainedScene.Proofs.Number.Intervals
import RetainedScene.Proofs.Path.Hull
import RetainedScene.Proofs.Layout.Alike
import RetainedScene.Proofs.Gallery.Sizes
import RetainedScene.Proofs.Gallery.Spread
import RetainedScene.Proofs.Gallery.Places
import RetainedScene.Proofs.Gallery.Ring
import RetainedScene.Proofs.Gallery.Inside
